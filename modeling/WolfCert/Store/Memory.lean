import Mathlib.Logic.Function.Basic
import WolfCert.CLib.Trace
import WolfCert.Errors

/-!
# The in-memory store

The linked list of `store.c` behind `wolfcert_store_memory_open`, against the finite map it stands
for.
-/

namespace WolfCert.Store

open WolfCert.CLib

variable {σ : Type}

/-- `data` and `len` are one list, empty when the pointer is NULL. -/
structure MemEntry where
  key : Bytes
  data : Bytes
deriving DecidableEq, Repr

/-- The list at `head`, and the heap its entries are allocated from. -/
structure MemCtx (σ : Type) where
  head : List MemEntry
  heap : σ

/-- The entries before the slot, and the list the slot points to. -/
def findSlot (key : Bytes) : List MemEntry → List MemEntry × List MemEntry
  | [] => ([], [])
  | e :: next =>
      if e.key = key then ([], e :: next)
      else (e :: (findSlot key next).1, (findSlot key next).2)

section Operations

-- the allocator: whether a request for that many bytes is granted
variable (alloc : σ → Nat → Bool × σ)

def memRead (ctx : MemCtx σ) (key : Bytes) : Except Rc Bytes × MemCtx σ :=
  match (findSlot key ctx.head).2 with
  | [] => (.error .errNotFound, ctx)
  | e :: _ =>
      match alloc ctx.heap e.data.length with
      | (true, heap) => (.ok e.data, { ctx with heap })
      | (false, heap) => (.error .errMemory, { ctx with heap })

/-- 1 is the size class of the entry record itself. -/
def memWrite (ctx : MemCtx σ) (key data : Bytes) : Rc × MemCtx σ :=
  match findSlot key ctx.head with
  | (passed, e :: next) =>
      -- the old data is freed before the new is allocated
      match alloc ctx.heap data.length with
      | (true, heap) => (.ok, { head := passed ++ { e with data } :: next, heap })
      | (false, heap) => (.errMemory, { head := passed ++ { e with data := [] } :: next, heap })
  | (_, []) =>
      match alloc ctx.heap 1 with
      | (false, heap) => (.errMemory, { ctx with heap })
      | (true, heap) =>
          let (keyCopied, heap) := alloc heap (key.length + 1)
          let (dataCopied, heap) := alloc heap data.length
          if keyCopied && dataCopied then (.ok, { head := { key, data } :: ctx.head, heap })
          else (.errMemory, { ctx with heap })

def memRemove (ctx : MemCtx σ) (key : Bytes) : Rc × MemCtx σ :=
  match findSlot key ctx.head with
  | (_, []) => (.ok, ctx)
  | (passed, _ :: next) => (.ok, { ctx with head := passed ++ next })

end Operations

/-! ## The calls of a store -/

inductive MemCall where
  | read (key : Bytes)
  | write (key data : Bytes)
  | remove (key : Bytes)
deriving DecidableEq, Repr

/-- The return code, and the data a read hands out. -/
structure MemAnswer where
  rc : Rc
  out : Bytes
deriving DecidableEq, Repr

def memStep (alloc : σ → Nat → Bool × σ) (ctx : MemCtx σ) :
    MemCall → Option (MemAnswer × MemCtx σ)
  | .read key =>
      match memRead alloc ctx key with
      | (.ok out, ctx) => some (⟨.ok, out⟩, ctx)
      | (.error rc, ctx) => some (⟨rc, []⟩, ctx)
  | .write key data => some (⟨(memWrite alloc ctx key data).1, []⟩, (memWrite alloc ctx key data).2)
  | .remove key => some (⟨(memRemove ctx key).1, []⟩, (memRemove ctx key).2)

/-- What the list holds under a key. -/
def MemCtx.lookup (ctx : MemCtx σ) (key : Bytes) : Option Bytes :=
  (ctx.head.find? (·.key = key)).map MemEntry.data

/-! ## The map -/

/-- A store as a finite map: only a call that succeeds changes it, and only at its own key. -/
def remember (map : Bytes → Option Bytes) : MemCall × MemAnswer → Bytes → Option Bytes
  | (.read _, _) => map
  | (.write key data, answer) => if answer.rc = .ok then Function.update map key (some data) else map
  | (.remove key, answer) => if answer.rc = .ok then Function.update map key none else map

/-- The last successful write of each key that no remove has followed. -/
def remembered (past : List (MemCall × MemAnswer)) : Bytes → Option Bytes :=
  past.foldl remember fun _ => none

structure MapAt (past : List (MemCall × MemAnswer)) (ctx : MemCtx σ) : Prop where
  unique : (ctx.head.map MemEntry.key).Nodup
  holds : ∀ key, ctx.lookup key = remembered past key

/-- The answers a map may give: a read finds what is there, or runs out of memory. -/
def Answers (past : List (MemCall × MemAnswer)) : MemCall → MemAnswer → Prop
  | .read key, answer =>
      match remembered past key with
      | none => answer.rc = .errNotFound
      | some data => answer = ⟨.ok, data⟩ ∨ answer.rc = .errMemory
  | .write _ _, answer => answer.rc = .ok ∨ answer.rc = .errMemory
  | .remove _, answer => answer.rc = .ok

/-- One of the calls, with what came before it. -/
structure Made (alloc : σ → Nat → Bool × σ) (heap : σ) (calls : List MemCall)
    (past : List (MemCall × MemAnswer)) (ctx : MemCtx σ) (call : MemCall) (answer : MemAnswer)
    (ctx' : MemCtx σ) : Prop where
  before : ∃ before after answers, calls = before ++ call :: after ∧
    history (memStep alloc) ⟨[], heap⟩ before = some (answers, ctx) ∧ past = before.zip answers
  step : memStep alloc ctx call = some (answer, ctx')

/-- Every call of the sequence is answered as a map would, and leaves the store that map. -/
def BehavesAsMap (alloc : σ → Nat → Bool × σ) (heap : σ) (calls : List MemCall) : Prop :=
  ∀ past ctx call answer ctx', Made alloc heap calls past ctx call answer ctx' →
    Answers past call answer ∧ MapAt (past ++ [(call, answer)]) ctx'

/-- No write to a key that is present runs out of memory. -/
def ReplacesAll (alloc : σ → Nat → Bool × σ) (heap : σ) (calls : List MemCall) : Prop :=
  ∀ past ctx key data answer ctx', Made alloc heap calls past ctx (.write key data) answer ctx' →
    ctx.lookup key ≠ none → answer.rc = .ok

theorem remembered_snoc (past : List (MemCall × MemAnswer)) (last : MemCall × MemAnswer) :
    remembered (past ++ [last]) = remember (remembered past) last := by
  rw [remembered, List.foldl_append]
  rfl

/-! ## The list -/

theorem findSlot_append (key : Bytes) (head : List MemEntry) :
    (findSlot key head).1 ++ (findSlot key head).2 = head := by
  induction head with
  | nil => rfl
  | cons e next ih =>
      simp only [findSlot]
      split
      · rfl
      · rw [List.cons_append, ih]

theorem findSlot_passed (key : Bytes) (head : List MemEntry) :
    ∀ e ∈ (findSlot key head).1, e.key ≠ key := by
  induction head with
  | nil => simp [findSlot]
  | cons e next ih =>
      simp only [findSlot]
      split
      · simp
      · rename_i other
        simpa [other] using ih

theorem findSlot_found {key : Bytes} {head passed next : List MemEntry} {e : MemEntry}
    (found : findSlot key head = (passed, e :: next)) : e.key = key := by
  induction head generalizing passed with
  | nil => cases found
  | cons first later ih =>
      simp only [findSlot] at found
      split at found
      · cases found
        assumption
      · obtain ⟨-, slot⟩ := Prod.mk.inj found
        exact ih (Prod.ext rfl slot)

/-- The list around the entry of a key that is present. -/
theorem findSlot_present {key : Bytes} {head passed next : List MemEntry} {e : MemEntry}
    (found : findSlot key head = (passed, e :: next)) :
    head = passed ++ e :: next ∧ e.key = key ∧ ∀ p ∈ passed, p.key ≠ key := by
  refine ⟨?_, findSlot_found found, ?_⟩
  · have whole := findSlot_append key head
    rw [found] at whole
    exact whole.symm
  · have clear := findSlot_passed key head
    rw [found] at clear
    exact clear

theorem findSlot_absent {key : Bytes} {head passed : List MemEntry}
    (missing : findSlot key head = (passed, [])) : ∀ e ∈ head, e.key ≠ key := by
  have whole := findSlot_append key head
  have clear := findSlot_passed key head
  rw [missing] at whole clear
  rw [← whole, List.append_nil]
  exact clear

section Lookup

variable {head next : List MemEntry} {e : MemEntry} {key other : Bytes} {heap : σ}

theorem lookup_absent (missing : ∀ e ∈ head, e.key ≠ key) :
    (MemCtx.mk head heap).lookup key = none := by
  rw [MemCtx.lookup, List.find?_eq_none.mpr (by simpa using missing)]
  rfl

theorem lookup_entry (passed : List MemEntry) (clear : ∀ p ∈ passed, p.key ≠ e.key) :
    (MemCtx.mk (passed ++ e :: next) heap).lookup e.key = some e.data := by
  rw [MemCtx.lookup, List.find?_append, List.find?_eq_none.mpr (by simpa using clear)]
  simp

theorem lookup_other (passed : List MemEntry) (different : e.key ≠ other) :
    (MemCtx.mk (passed ++ e :: next) heap).lookup other =
      (MemCtx.mk (passed ++ next) heap).lookup other := by
  simp [MemCtx.lookup, List.find?_append, different]

end Lookup

/-! ## The operations -/

section Steps

variable {alloc : σ → Nat → Bool × σ} {ctx ctx' : MemCtx σ} {key : Bytes} {rc : Rc}

theorem memRead_spec (alloc : σ → Nat → Bool × σ) (ctx : MemCtx σ) (key : Bytes) :
    (memRead alloc ctx key).2.head = ctx.head ∧
      match ctx.lookup key with
      | none => (memRead alloc ctx key).1 = .error .errNotFound
      | some data => (memRead alloc ctx key).1 = .ok data ∨
          (memRead alloc ctx key).1 = .error .errMemory := by
  obtain ⟨head, heap⟩ := ctx
  unfold memRead
  cases found : findSlot key head with
  | mk passed slot =>
      cases slot with
      | nil =>
          rw [lookup_absent (findSlot_absent found)]
          exact ⟨rfl, rfl⟩
      | cons e next =>
          obtain ⟨rfl, rfl, clear⟩ := findSlot_present found
          rw [lookup_entry passed clear]
          dsimp only
          split
          · exact ⟨rfl, .inl rfl⟩
          · exact ⟨rfl, .inr rfl⟩

/-- A write that succeeds puts its data under its key. One that fails changes nothing if the key is
absent; if it is present, its data is lost. -/
theorem memWrite_spec {data : Bytes} (run : memWrite alloc ctx key data = (rc, ctx')) :
    rc = .ok ∧ ((ctx.head.map MemEntry.key).Nodup → (ctx'.head.map MemEntry.key).Nodup) ∧
        (∀ k, ctx'.lookup k = Function.update ctx.lookup key (some data) k) ∨
      rc = .errMemory ∧ ctx.lookup key = none ∧ ctx'.head = ctx.head ∨
      rc = .errMemory ∧ ctx.lookup key ≠ none ∧ ctx'.lookup key = some [] := by
  obtain ⟨head, heap⟩ := ctx
  unfold memWrite at run
  cases found : findSlot key head with
  | mk passed slot =>
      cases slot with
      | nil =>
          have missing := findSlot_absent found
          simp only [found] at run
          split at run
          · cases run
            exact .inr (.inl ⟨rfl, lookup_absent missing, rfl⟩)
          · split at run
            · cases run
              refine .inl ⟨rfl, fun unique => ?_, fun k => ?_⟩
              · simpa [unique] using missing
              · by_cases same : k = key
                · subst same
                  rw [Function.update_self]
                  exact lookup_entry [] (by simp)
                · rw [Function.update_of_ne same]
                  exact lookup_other [] (Ne.symm same)
            · cases run
              exact .inr (.inl ⟨rfl, lookup_absent missing, rfl⟩)
      | cons e next =>
          obtain ⟨rfl, rfl, clear⟩ := findSlot_present found
          simp only [found] at run
          split at run
          · cases run
            refine .inl ⟨rfl, fun unique => by simpa using unique, fun k => ?_⟩
            by_cases same : k = e.key
            · subst same
              rw [Function.update_self]
              exact lookup_entry (e := ⟨e.key, data⟩) passed clear
            · rw [Function.update_of_ne same, lookup_other (e := e) passed (Ne.symm same)]
              exact lookup_other (e := ⟨e.key, data⟩) passed (Ne.symm same)
          · cases run
            refine .inr (.inr ⟨rfl, ?_, lookup_entry (e := ⟨e.key, []⟩) passed clear⟩)
            rw [lookup_entry passed clear]
            simp

theorem memRemove_spec (unique : (ctx.head.map MemEntry.key).Nodup)
    (run : memRemove ctx key = (rc, ctx')) :
    rc = .ok ∧ (ctx'.head.map MemEntry.key).Nodup ∧
      ∀ k, ctx'.lookup k = Function.update ctx.lookup key none k := by
  obtain ⟨head, heap⟩ := ctx
  unfold memRemove at run
  cases found : findSlot key head with
  | mk passed slot =>
      cases slot with
      | nil =>
          have missing := findSlot_absent found
          simp only [found] at run
          cases run
          refine ⟨rfl, unique, fun k => ?_⟩
          by_cases same : k = key
          · subst same
            rw [Function.update_self, lookup_absent missing]
          · rw [Function.update_of_ne same]
      | cons e next =>
          obtain ⟨rfl, rfl, clear⟩ := findSlot_present found
          simp only [found] at run
          cases run
          have distinct : ∀ p ∈ passed ++ next, p.key ≠ e.key := by
            have rest : ∀ p ∈ next, p.key ≠ e.key := by
              simp only [List.map_append, List.map_cons, List.nodup_append, List.nodup_cons,
                List.mem_map] at unique
              intro p inside same
              exact unique.2.1.1 ⟨p, inside, same⟩
            intro p inside
            exact (List.mem_append.mp inside).elim (clear p) (rest p)
          refine ⟨rfl, ?_, fun k => ?_⟩
          · exact unique.sublist (List.Sublist.map _ ((List.Sublist.refl passed).append
              (List.sublist_cons_self e next)))
          · by_cases same : k = e.key
            · subst same
              rw [Function.update_self, lookup_absent distinct]
            · rw [Function.update_of_ne same, lookup_other passed (Ne.symm same)]

/-- One call on a map is a call on the list, unless it is a replacement that fails. -/
theorem memStep_map {past : List (MemCall × MemAnswer)} {call : MemCall} {answer : MemAnswer}
    (map : MapAt past ctx) (step : memStep alloc ctx call = some (answer, ctx'))
    (replaces : ∀ key data, call = .write key data → ctx.lookup key ≠ none → answer.rc = .ok) :
    Answers past call answer ∧ MapAt (past ++ [(call, answer)]) ctx' := by
  have same : ctx.lookup = remembered past := funext map.holds
  cases call with
  | read key =>
      obtain ⟨head, result⟩ := memRead_spec alloc ctx key
      rw [map.holds] at result
      have kept {out : Bytes} {rc : Rc} {after : MemCtx σ} (list : after.head = ctx.head) :
          MapAt (past ++ [(.read key, ⟨rc, out⟩)]) after := by
        refine ⟨by rw [list]; exact map.unique, fun k => ?_⟩
        rw [remembered_snoc, MemCtx.lookup, list]
        exact map.holds k
      cases ran : memRead alloc ctx key with
      | mk outcome after =>
          rw [ran] at head result
          simp only [Answers]
          cases outcome with
          | ok out =>
              simp only [memStep, ran, Option.some.injEq, Prod.mk.injEq] at step
              obtain ⟨rfl, rfl⟩ := step
              refine ⟨?_, kept head⟩
              cases there : remembered past key with
              | none => simp [there] at result
              | some data => simpa [there, eq_comm] using result
          | error rc =>
              simp only [memStep, ran, Option.some.injEq, Prod.mk.injEq] at step
              obtain ⟨rfl, rfl⟩ := step
              refine ⟨?_, kept head⟩
              cases there : remembered past key with
              | none => simpa [there] using result
              | some data => exact .inr (by simpa [there] using result)
  | write key data =>
      simp only [memStep, Option.some.injEq, Prod.mk.injEq] at step
      obtain ⟨rfl, rfl⟩ := step
      rcases memWrite_spec (Prod.eta (memWrite alloc ctx key data)).symm with
        ⟨ok, unique, updated⟩ | ⟨failed, -, list⟩ | ⟨failed, present, -⟩
      · refine ⟨.inl ok, unique map.unique, fun k => ?_⟩
        rw [updated, same, remembered_snoc, remember, if_pos ok]
      · refine ⟨.inr failed, by rw [list]; exact map.unique, fun k => ?_⟩
        rw [remembered_snoc, remember, if_neg (by simp [failed]), ← map.holds, MemCtx.lookup, list]
        rfl
      · have ok := replaces key data rfl present
        rw [failed] at ok
        cases ok
  | remove key =>
      simp only [memStep, Option.some.injEq, Prod.mk.injEq] at step
      obtain ⟨rfl, rfl⟩ := step
      obtain ⟨ok, unique, updated⟩ := memRemove_spec map.unique (Prod.eta (memRemove ctx key)).symm
      refine ⟨ok, unique, fun k => ?_⟩
      rw [updated, same, remembered_snoc, remember, if_pos ok]

end Steps

/-! ## Whole histories -/

theorem remembered_nonempty {past : List (MemCall × MemAnswer)}
    (nonempty : ∀ key data answer, (MemCall.write key data, answer) ∈ past → data ≠ [])
    (key : Bytes) : remembered past key ≠ some [] := by
  induction past using List.reverseRecOn with
  | nil => simp [remembered]
  | append_singleton past last ih =>
      have earlier := ih fun key data answer inside => nonempty key data answer (by simp [inside])
      rw [remembered_snoc]
      obtain ⟨call, answer⟩ := last
      cases call with
      | read _ => exact earlier
      | write k data =>
          have some := nonempty k data answer (by simp)
          simp only [remember]
          split
          · rw [Function.update_apply]
            split
            · simpa using some
            · exact earlier
          · exact earlier
      | remove k =>
          simp only [remember]
          split
          · rw [Function.update_apply]
            split
            · simp
            · exact earlier
          · exact earlier

/-- While replacements succeed, the list is the map of the calls made. -/
theorem history_map {alloc : σ → Nat → Bool × σ} {heap : σ} {calls before : List MemCall}
    {answers : List MemAnswer} {ctx : MemCtx σ} (replaces : ReplacesAll alloc heap calls)
    (within : before <+: calls)
    (ran : history (memStep alloc) ⟨[], heap⟩ before = some (answers, ctx)) :
    MapAt (before.zip answers) ctx := by
  have empty : MapAt [] (MemCtx.mk [] heap) := ⟨List.nodup_nil, fun _ => rfl⟩
  refine history_induction
    (P := fun before answers ctx => before <+: calls → MapAt (before.zip answers) ctx)
    (fun _ => empty) ?_ ran within
  intro before answers ctx call answer ctx' reached ih step within
  have map := ih ((List.prefix_append before [call]).trans within)
  obtain ⟨after, whole⟩ := within
  rw [List.zip_append (history_length reached)]
  refine (memStep_map map step fun key data write present => ?_).2
  subst write
  exact replaces _ ctx key data answer ctx'
    ⟨⟨before, after, answers, by simp [← whole], reached, rfl⟩, step⟩ present

/-- The store behaves as a map through a sequence of calls exactly when no write to a present key
runs out of memory in it. -/
theorem behavesAsMap_iff (alloc : σ → Nat → Bool × σ) (heap : σ) {calls : List MemCall}
    (nonempty : ∀ key data, MemCall.write key data ∈ calls → data ≠ []) :
    BehavesAsMap alloc heap calls ↔ ReplacesAll alloc heap calls := by
  constructor
  · intro behaves past ctx key data answer ctx' made present
    obtain ⟨-, map⟩ := behaves past ctx _ answer ctx' made
    obtain ⟨⟨before, after, answers, whole, -, zipped⟩, step⟩ := made
    simp only [memStep, Option.some.injEq, Prod.mk.injEq] at step
    obtain ⟨rfl, rfl⟩ := step
    rcases memWrite_spec (Prod.eta (memWrite alloc ctx key data)).symm with
      ⟨ok, -⟩ | ⟨-, absent, -⟩ | ⟨-, -, lost⟩
    · exact ok
    · exact absurd absent present
    · rw [map.holds] at lost
      refine absurd lost (remembered_nonempty (fun k d a inside => ?_) key)
      refine nonempty k d ?_
      rw [whole]
      rcases List.mem_append.mp inside with earlier | now
      · rw [zipped] at earlier
        exact List.mem_append_left _ (List.of_mem_zip earlier).1
      · obtain ⟨call, -⟩ := Prod.mk.inj (List.mem_singleton.mp now)
        simp [call]
  · intro replaces past ctx call answer ctx' made
    have conforms := made
    obtain ⟨⟨before, after, answers, whole, reached, rfl⟩, step⟩ := conforms
    have map := history_map replaces ⟨call :: after, whole.symm⟩ reached
    refine memStep_map map step fun key data write present => ?_
    subst write
    exact replaces _ ctx key data answer ctx' made present

/-- A heap that grants a number of requests and refuses all later ones. -/
def countdown (left : Nat) (_ : Nat) : Bool × Nat :=
  match left with
  | 0 => (false, 0)
  | left + 1 => (true, left)

def replaceCalls : List MemCall :=
  [.write (ascii "ca.key.der") [1, 2], .write (ascii "ca.key.der") [3]]

/-- A replacement without memory fails and loses the old value: the next read finds an empty one. -/
theorem failed_replace_loses_value :
    (history (memStep countdown) ⟨[], 3⟩ replaceCalls).map
        (fun (answers, ctx) => (answers.map MemAnswer.rc, ctx.head)) =
      some ([.ok, .errMemory], [⟨ascii "ca.key.der", []⟩]) ∧
      ¬ BehavesAsMap countdown 3 replaceCalls := by
  refine ⟨by decide, fun behaves => ?_⟩
  obtain ⟨-, -, holds⟩ := behaves [(.write (ascii "ca.key.der") [1, 2], ⟨.ok, []⟩)]
    ⟨[⟨ascii "ca.key.der", [1, 2]⟩], 0⟩ (.write (ascii "ca.key.der") [3]) ⟨.errMemory, []⟩
    ⟨[⟨ascii "ca.key.der", []⟩], 0⟩
    ⟨⟨[.write (ascii "ca.key.der") [1, 2]], [], [⟨.ok, []⟩], rfl, rfl, rfl⟩, rfl⟩
  have lost := holds (ascii "ca.key.der")
  revert lost
  decide

theorem behavesAsMap_iff_replace :
    (∀ key data, MemCall.write key data ∈ replaceCalls → data ≠ []) ∧
      (BehavesAsMap countdown 9 replaceCalls ↔ ReplacesAll countdown 9 replaceCalls) := by
  have nonempty : ∀ key data, MemCall.write key data ∈ replaceCalls → data ≠ [] := by
    intro key data inside
    simp only [replaceCalls, List.mem_cons, MemCall.write.injEq, List.not_mem_nil, or_false] at inside
    rcases inside with ⟨-, rfl⟩ | ⟨-, rfl⟩ <;> simp
  exact ⟨nonempty, behavesAsMap_iff countdown 9 nonempty⟩

end WolfCert.Store
