import WolfCert.Http.KeepAlive
import WolfCert.Http.Schedule

/-!
# Bytes past a reply

What a session does about bytes the server sent after the end of a reply. Those read together with the
reply close the session. Those still in the transport are the start of the next reply.
-/

namespace WolfCert.Http

open WolfCert.CLib

variable (now : Int) (base64EncodeNoNl : Bytes → Option Bytes)

/-! ## A reply is a nonempty prefix of the stream -/

theorem Answers.published {bounded : Prop} {reply : Except Rc Reply} {x' : Exchange Wire}
    (answers : Answers bounded reply .ok x') : Published reply x' := by
  cases answers with
  | given _ published => exact published
  | failed _ _ code => exact absurd rfl code.1.1

theorem Returns.published {y x' : Exchange Wire} {nb : Bool} (returns : Returns now y nb .ok x') :
    Published (expects now y) x' := by
  cases returns with
  | answers _ _ answers => exact answers.published
  | waits _ _ _ want => simp [Rc.isWant] at want

theorem Returns.waiting {y x' : Exchange Wire} {nb : Bool} {rc : Rc} (returns : Returns now y nb rc x')
    (want : rc.isWant = true) : Ready x' ∧ expects now x' = expects now y := by
  cases returns with
  | answers _ _ answers => simp [answers.final] at want
  | waits _ _ _ _ ready same => exact ⟨ready, same⟩
  | refuses => simp [Rc.isWant] at want

end WolfCert.Http
