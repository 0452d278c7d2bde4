import WolfCert.CLib.Trace
import WolfCert.Transport

/-!
# Every connect has its disconnect

Whatever the transports answer and whatever the callers ask for, a connection is disconnected once, by the
close of its session, and read from and written to only before.
-/

namespace WolfCert

open WolfCert.CLib WolfCert.Http WolfCert.Est WolfCert.Scep

variable {σ τ η α β : Type}

/-! ## What a part of a call may do -/

/-- Whatever connections were held, the same ones still are. -/
def Ledger.Kept (l m : Ledger σ) : Prop :=
  ∀ live, Balanced live l.dialled l.log → Balanced live m.dialled m.log

/-- One more connection is held. -/
def Ledger.Gained (l m : Ledger σ) (c : Nat) : Prop :=
  ∀ live, Balanced live l.dialled l.log →
    ¬live c ∧ Balanced (fun d => live d ∨ d = c) m.dialled m.log

open Ledger

variable {l m n : Ledger σ} {c : Nat}

theorem Ledger.Kept.refl (l : Ledger σ) : Kept l l := fun _ balanced => balanced

theorem Ledger.Kept.trans (first : Kept l m) (second : Kept m n) : Kept l n :=
  fun live balanced => second live (first live balanced)

theorem Ledger.Kept.gained (first : Kept l m) (second : Gained m n c) : Gained l n c :=
  fun live balanced => second live (first live balanced)

theorem Ledger.Gained.kept (first : Gained l m c) (second : Kept m n) : Gained l n c := by
  intro live balanced
  obtain ⟨fresh, more⟩ := first live balanced
  exact ⟨fresh, second _ more⟩

/-- A new world alone changes nothing. -/
theorem Ledger.Kept.world (l : Ledger σ) (w : σ) : Kept l { l with world := w } :=
  fun _ balanced => balanced

theorem used_balanced {live : Nat → Prop} (balanced : Balanced live l.dialled l.log) (holds : live c)
    (after : σ × List Io) : Balanced live (l.used c after).dialled (l.used c after).log :=
  balanced.use holds after.2

theorem Ledger.Gained.used (gained : Gained l m c) (after : σ × List Io) : Gained l (m.used c after) c := by
  intro live balanced
  obtain ⟨fresh, more⟩ := gained live balanced
  exact ⟨fresh, used_balanced more (.inr rfl) after⟩

section Connections

variable (stack : Stack σ τ η)

theorem dial_ok {cfg : TransportCfg τ} {host : Bytes} {port timeoutMs : Int} {k : Link τ η}
    (dialled : dial stack cfg host port timeoutMs l = (.ok k, m)) : Gained l m k.id := by
  unfold dial at dialled
  split at dialled
  · cases dialled
  · split at dialled
    split at dialled
    · cases dialled
      exact fun live balanced => ⟨(balanced.later _ (Nat.le_refl _)).1, balanced.acquire⟩
    · cases dialled

theorem dial_error {cfg : TransportCfg τ} {host : Bytes} {port timeoutMs : Int} {rc : Rc}
    (dialled : dial stack cfg host port timeoutMs l = (.error rc, m)) : Kept l m := by
  unfold dial at dialled
  split at dialled
  · cases dialled
    exact .refl l
  · split at dialled
    split at dialled
    · cases dialled
    · cases dialled
      exact fun live balanced => balanced.refuse

theorem httpSessionClose_balanced {live : Nat → Prop} {k : Link τ η} (ssl : Bool)
    (balanced : Balanced live l.dialled l.log) (holds : live k.id) :
    Balanced (fun d => live d ∧ d ≠ k.id) (httpSessionClose stack ssl (some k) l).dialled
      (httpSessionClose stack ssl (some k) l).log := by
  cases ssl with
  | false => exact balanced.release holds
  | true => exact (used_balanced balanced holds _).release holds

/-- Opened and closed again. -/
theorem Ledger.Gained.closed {k : Link τ η} (gained : Gained l m k.id) (ssl : Bool) :
    Kept l (httpSessionClose stack ssl (some k) m) := by
  intro live balanced
  obtain ⟨fresh, more⟩ := gained live balanced
  refine (httpSessionClose_balanced stack ssl more (.inr rfl)).congr fun d => ?_
  constructor
  · rintro ⟨holds | rfl, other⟩
    · exact holds
    · exact absurd rfl other
  · intro holds
    exact ⟨.inl holds, fun same => fresh (same ▸ holds)⟩

end Connections

/-! ## Opening -/

/-- A program that opens a connection, or leaves none behind. -/
structure Opens (link : α → Link τ η) (p : Prog (Ledger σ) Rc α) : Prop where
  ok : ∀ {l m a}, p l = some (.ok a, m) → Gained l m (link a).id
  error : ∀ {l m rc}, p l = some (.error rc, m) → Kept l m

theorem quiet_kept {p : Prog σ Rc α} {result : Except Rc α} (ran : quiet p l = some (result, m)) :
    Kept l m := by
  obtain ⟨after, -, same⟩ := Option.map_eq_some_iff.mp ran
  cases same
  exact .world l after.2

variable {link : α → Link τ η} {link' : β → Link τ η}

theorem Opens.after_quiet {first : Prog σ Rc β} {next : β → Prog (Ledger σ) Rc α}
    (opens : ∀ b, Opens link (next b)) : Opens link (quiet first >>= next) where
  ok ran := by
    obtain ⟨b, _, began, ended⟩ := Prog.bind_ok_iff.mp ran
    exact (quiet_kept began).gained ((opens b).ok ended)
  error ran := by
    rcases Prog.bind_cases ran with ⟨_, -, failed⟩ | ⟨b, _, began, ended⟩
    · exact quiet_kept failed
    · exact (quiet_kept began).trans ((opens b).error ended)

theorem Opens.map {p : Prog (Ledger σ) Rc α} (opens : Opens link p) {f : α → β}
    (same : ∀ a, link' (f a) = link a) : Opens link' (p >>= fun a => pure (f a)) where
  ok ran := by
    obtain ⟨a, _, began, ended⟩ := Prog.bind_ok_iff.mp ran
    cases ended
    rw [same]
    exact opens.ok began
  error ran := by
    rcases Prog.bind_cases ran with ⟨_, -, failed⟩ | ⟨_, _, _, ended⟩
    · exact opens.error failed
    · cases ended

section Sessions

variable (stack : Stack σ τ η) (cfg : TransportCfg τ)

theorem httpSessionOpenOn_opens (url : Bytes) (maxResponseBytes : Nat) (timeoutMs : Int) :
    Opens Prod.fst (httpSessionOpenOn stack cfg url maxResponseBytes timeoutMs) := by
  refine .after_quiet fun _ => .after_quiet fun base => ⟨fun {l m a} ran => ?_, fun {l m rc} ran => ?_⟩
  · split at ran
    · cases ran
    · rename_i k _ dialled
      split at ran
      · split at ran
        · cases ran
          exact (dial_ok stack dialled).kept (.world _ _)
        · cases ran
      · cases ran
        exact dial_ok stack dialled
  · split at ran
    · rename_i dialled
      cases ran
      exact dial_error stack dialled
    · rename_i k _ dialled
      split at ran
      · split at ran
        · cases ran
        · cases ran
          exact ((dial_ok stack dialled).kept (.world _ _)).closed stack false
      · cases ran

theorem connectOrClose_opens (url : Bytes) (srv : ServerCfg) :
    Opens Prod.fst (connectOrClose stack cfg url srv) := by
  have opens := httpSessionOpenOn_opens stack cfg url srv.maxResponseBytes srv.timeoutMs
  refine ⟨fun {l m a} ran => ?_, fun {l m rc} ran => ?_⟩
  · unfold connectOrClose at ran
    split at ran
    · cases ran
    · cases ran
    · rename_i began
      cases ran
      exact opens.ok began
  · unfold connectOrClose at ran
    split at ran
    · cases ran
    · rename_i began
      cases ran
      exact opens.error began
    · cases ran

theorem estSessionOpenOn_opens (srv : ServerCfg) :
    Opens (fun a => a.2.1) (estSessionOpenOn stack cfg srv) :=
  .after_quiet fun s => (connectOrClose_opens stack cfg s.baseUrl srv).map fun _ => rfl

theorem scepSessionOpenOn_opens (srv : ServerCfg) (opts : ScepOpts) :
    Opens (fun a => a.2.1) (scepSessionOpenOn stack cfg srv opts) :=
  .after_quiet fun s => (connectOrClose_opens stack cfg s.serverUrl srv).map fun _ => rfl

/-! ## One-shot calls -/

theorem httpRequestOn_kept {req : HttpRequest} {maxResponseBytes : Nat} {timeoutMs : Int} {resp : Nat}
    {result : Rc × HttpResponse}
    (ran : httpRequestOn stack cfg req maxResponseBytes timeoutMs resp l = some (result, m)) :
    Kept l m := by
  have opens := httpSessionOpenOn_opens stack cfg req.url maxResponseBytes timeoutMs
  unfold httpRequestOn at ran
  split at ran
  · cases ran
  · rename_i failed
    cases ran
    exact opens.error failed
  · rename_i opened
    obtain ⟨⟨rc, e⟩, -, same⟩ := Option.map_eq_some_iff.mp ran
    cases same
    exact ((opens.ok opened).used e.world).closed stack _

theorem estOneShot_kept {srv : ServerCfg} {args : EstArgs} {outputs : Nat → EstOutput}
    {result : Rc × (Nat → EstOutput)}
    (ran : estOneShot stack cfg srv args outputs l = some (result, m)) : Kept l m := by
  have opens := estSessionOpenOn_opens stack cfg srv
  simp only [estOneShot] at ran
  split at ran
  · cases ran
    exact .refl l
  · split at ran
    · cases ran
    · rename_i failed
      cases ran
      exact opens.error failed
    · rename_i opened
      obtain ⟨⟨rc, x⟩, -, same⟩ := Option.map_eq_some_iff.mp ran
      cases same
      exact ((opens.ok opened).used x.world).closed stack _

theorem estOneShotCall_kept {srv : ServerCfg} {call : EstCall} {outputs : Nat → EstOutput}
    {result : Rc × (Nat → EstOutput)}
    (ran : estOneShotCall stack cfg srv call outputs l = some (result, m)) : Kept l m := by
  unfold estOneShotCall at ran
  split at ran
  · cases ran
    exact .refl l
  · exact estOneShot_kept stack cfg ran

theorem estSimpleReenroll_kept {srv : ServerCfg} {currentCert csr : Bytes} {currentKey : Option ScepKey}
    {out : Option Nat} {outputs : Nat → EstOutput} {result : Rc × (Nat → EstOutput)}
    (ran : estSimpleReenroll stack cfg srv currentCert currentKey csr out outputs l = some (result, m)) :
    Kept l m := by
  simp only [estSimpleReenroll] at ran
  split at ran
  · cases ran
    exact .refl l
  · split at ran
    · cases ran
      exact .refl l
    · split at ran
      · cases ran
        exact .refl l
      · split at ran
        · cases ran
          exact .world l _
        · exact (Kept.world l _).trans (estOneShot_kept stack cfg ran)

theorem scepOneShotOn_kept {srv : ServerCfg} {opts : ScepOpts} {args : ScepArgs} {o : ScepOutputs}
    {result : Rc × ScepOutputs}
    (ran : scepOneShotOn stack cfg srv opts args o l = some (result, m)) : Kept l m := by
  simp only [scepOneShotOn] at ran
  split at ran
  · cases ran
    exact .refl l
  · split at ran
    · cases ran
      exact .refl l
    · split at ran
      · cases ran
      · rename_i failed
        cases ran
        exact quiet_kept failed
      · rename_i s between begun
        have opens := httpSessionOpenOn_opens stack cfg s.serverUrl srv.maxResponseBytes srv.timeoutMs
        refine (quiet_kept begun).trans ?_
        split at ran
        · cases ran
        · rename_i failed
          cases ran
          exact opens.error failed
        · rename_i opened
          obtain ⟨⟨rc, x⟩, -, same⟩ := Option.map_eq_some_iff.mp ran
          cases same
          exact ((opens.ok opened).used x.world).closed stack _

end Sessions

/-! ## Any use -/

/-- The connections that are held are those of the open sessions. -/
structure System.Paired (s : System σ τ η) : Prop where
  numbered : ∀ c x, s.sessions c = some x → x.link.id = c
  balanced : Balanced (fun c => s.sessions c ≠ none) s.ledger.dialled s.ledger.log

variable {s t : System σ τ η} {rc : Rc}

theorem numbered_update {sessions : Nat → Option (OpenSession τ η)} {entry : Option (OpenSession τ η)}
    (numbered : ∀ c x, sessions c = some x → x.link.id = c) (right : ∀ x, entry = some x → x.link.id = c)
    (d : Nat) (y : OpenSession τ η) (found : Function.update sessions c entry d = some y) :
    y.link.id = d := by
  by_cases same : d = c
  · subst same
    rw [Function.update_self] at found
    exact right y found
  · rw [Function.update_of_ne same] at found
    exact numbered d y found

theorem System.Paired.start (w : σ) : (System.start w : System σ τ η).Paired where
  numbered _ _ impossible := by cases impossible
  balanced := Balanced.start.congr fun c => by simp [System.start]

theorem System.Paired.kept (paired : s.Paired) (same : Kept s.ledger l) :
    ({ s with ledger := l } : System σ τ η).Paired :=
  ⟨paired.numbered, same _ paired.balanced⟩

theorem System.Paired.opening {client : α → HttpSession → Client}
    {p : Prog (Ledger σ) Rc (α × Link τ η × HttpSession)} (paired : s.Paired)
    (opens : Opens (fun a => a.2.1) p) (opened : s.opening client (p s.ledger) = some (rc, t)) :
    t.Paired := by
  unfold System.opening at opened
  split at opened
  · cases opened
  · rename_i failed
    cases opened
    exact paired.kept (opens.error failed)
  · rename_i a k http after ran
    cases opened
    obtain ⟨-, more⟩ := opens.ok ran _ paired.balanced
    refine ⟨numbered_update paired.numbered fun x same => by cases same; rfl, more.congr fun c => ?_⟩
    by_cases same : c = k.id <;> simp [same]

theorem System.Paired.calling
    {call : Link τ η → Client → σ × List Io → Option (Rc × Client × (σ × List Io))}
    (paired : s.Paired) (called : s.calling c call = some (rc, t)) : t.Paired := by
  unfold System.calling at called
  split at called
  · cases called
  · rename_i x found
    obtain ⟨⟨_, client, after⟩, -, same⟩ := Option.map_eq_some_iff.mp called
    cases same
    have number := paired.numbered c x found
    have holds : s.sessions x.link.id ≠ none := by simp [number, found]
    refine ⟨numbered_update paired.numbered fun y same => by cases same; exact number,
      (used_balanced paired.balanced holds after).congr fun d => ?_⟩
    by_cases same : d = c <;> simp [same, found]

theorem System.Paired.answered {result : Option ((Rc × α) × Ledger σ)} (paired : s.Paired)
    (keeps : ∀ {a m}, result = some (a, m) → Kept s.ledger m)
    (answered : s.answered result = some (rc, t)) : t.Paired := by
  obtain ⟨⟨⟨_, a⟩, m⟩, ran, same⟩ := Option.map_eq_some_iff.mp answered
  cases same
  exact paired.kept (keeps ran)

theorem System.Paired.close (stack : Stack σ τ η) (paired : s.Paired)
    (closed : s.step stack (.close c) = some (rc, t)) : t.Paired := by
  simp only [System.step] at closed
  split at closed
  · cases closed
  · rename_i x found
    cases closed
    have number := paired.numbered c x found
    have holds : s.sessions x.link.id ≠ none := by simp [number, found]
    refine ⟨numbered_update paired.numbered (fun y impossible => by cases impossible),
      (httpSessionClose_balanced stack _ paired.balanced holds).congr fun d => ?_⟩
    by_cases same : d = c <;> simp [same, number]

theorem System.Paired.step (stack : Stack σ τ η) (use : Use τ) (paired : s.Paired)
    (stepped : s.step stack use = some (rc, t)) : t.Paired := by
  cases use with
  | httpOpen cfg url maxResponseBytes timeoutMs =>
      exact paired.opening ((httpSessionOpenOn_opens stack cfg url _ _).map fun _ => rfl) stepped
  | estOpen cfg srv outputs => exact paired.opening (estSessionOpenOn_opens stack cfg srv) stepped
  | scepOpen cfg srv opts outputs =>
      exact paired.opening (scepSessionOpenOn_opens stack cfg srv opts) stepped
  | httpSetClose c => exact paired.calling stepped
  | httpCall c req resp response nb => exact paired.calling stepped
  | estCall c call nb => exact paired.calling stepped
  | scepCall c call nb => exact paired.calling stepped
  | close c => exact paired.close stack stepped
  | httpOneShot cfg req maxResponseBytes timeoutMs resp =>
      exact paired.answered (httpRequestOn_kept stack cfg) stepped
  | estOneShot cfg srv call outputs => exact paired.answered (estOneShotCall_kept stack cfg) stepped
  | estReenroll cfg srv currentCert currentKey csr out outputs =>
      exact paired.answered (estSimpleReenroll_kept stack cfg) stepped
  | scepOneShot cfg srv opts call outputs =>
      exact paired.answered (scepOneShotOn_kept stack cfg) stepped

/-- At any time, a connection whose session is open has been connected and only used since. Any other
connect was refused, or its connection was disconnected once after all that was read and written. -/
theorem transports_paired (stack : Stack σ τ η) (w : σ) (uses : List (Use τ)) {results : List Rc}
    (ran : history (System.step stack) (.start w) uses = some (results, s)) (c : Nat) :
    (s.sessions c ≠ none → Held c (eventsOf c s.ledger.log)) ∧
      (s.sessions c = none → c < s.ledger.dialled → Settled c (eventsOf c s.ledger.log)) ∧
      (s.ledger.dialled ≤ c → eventsOf c s.ledger.log = []) := by
  have paired : s.Paired := history_invariant (.start w) (fun _ use _ _ paired => paired.step stack use) ran
  refine ⟨paired.balanced.held c, fun closed before => ?_, fun after => (paired.balanced.later c after).2⟩
  exact paired.balanced.settled c before fun stillOpen => stillOpen closed

/-! A transport that connects and one that refuses, under a TLS library whose handshake waits. -/

def exampleStack : Stack Wire Bool Unit where
  crypt := exampleCrypt ⟨[], [], [], []⟩
  builtin := none
  connect accepts _ _ _ w := ((if accepts then 0 else Rc.errIo.toInt, ()), w)
  read _ _ _ _ w := (.code .errWantRead, w)
  write _ _ _ _ w := (.code .errWantWrite, w)
  disconnect _ _ w := w
  setupTls _ _ w := (.ok, w)
  sslConnect _ timeoutMs w := ((.error .wantRead, [.write [22] timeoutMs, .read 5 timeoutMs]), w)
  sslRead _ _ _ w := ((.error .other, []), w)
  sslWrite _ _ _ w := ((.error .other, []), w)
  sslShutdown _ w := ([.write [21] 0], w)
  keyToPem _ w := (.error .errUnsupported, w)

def exampleTransport (accepts : Bool) : TransportCfg Bool := ⟨true, true, true, true, false, accepts⟩

/-- A session whose first request waits for the handshake, and a connect that is refused. -/
def exampleUses : List (Use Bool) :=
  [.httpOpen (exampleTransport true) [104] 0 0,
    .httpCall 0 ⟨[71], [104], none, none, none, [], none, none⟩ 1 .zero true,
    .httpOpen (exampleTransport false) [104] 0 0,
    .close 0]

theorem transports_paired_handshake :
    ∃ s, history (System.step exampleStack) (.start ⟨[], [], false, false⟩) exampleUses =
        some ([.ok, .errWantRead, .errIo, .ok], s) ∧
      s.ledger.log =
        [.acquired 0, .used 0 (.write [22] 0), .used 0 (.read 5 0), .refused 1,
          .used 0 (.write [21] 0), .released 0] ∧
      Settled 0 (eventsOf 0 s.ledger.log) ∧ Settled 1 (eventsOf 1 s.ledger.log) := by
  have seen : (history (System.step exampleStack) (.start ⟨[], [], false, false⟩) exampleUses).map
      (fun after => (after.1, after.2.ledger.log, after.2.ledger.dialled,
        (after.2.sessions 0).isNone, (after.2.sessions 1).isNone)) =
        some ([.ok, .errWantRead, .errIo, .ok],
          [.acquired 0, .used 0 (.write [22] 0), .used 0 (.read 5 0), .refused 1,
            .used 0 (.write [21] 0), .released 0], 2, true, true) := by decide +kernel
  obtain ⟨⟨results, s⟩, ran, same⟩ := Option.map_eq_some_iff.mp seen
  simp only [Prod.mk.injEq, Option.isNone_iff_eq_none] at same
  obtain ⟨rfl, log, dialled, first, second⟩ := same
  exact ⟨s, ran, log, (transports_paired exampleStack _ _ ran 0).2.1 first (by omega),
    (transports_paired exampleStack _ _ ran 1).2.1 second (by omega)⟩

end WolfCert
