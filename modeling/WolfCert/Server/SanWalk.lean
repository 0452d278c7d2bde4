import WolfCert.CLib.Looking
import WolfCert.Scep.Element
import WolfCert.Server.Issue

/-!
# Where the alternative names come from

What `copy_csr_san` puts into a certificate, and where its two walks look on the way there.
-/

namespace WolfCert

open WolfCert.CLib WolfCert.Scep

/-- `GetASNTag` reads one tag before the limit, and `GetLength` one length whose content ends before it;
both advance the index. -/
structure Asn.Bounded (asn : Asn) : Prop where
  tag : ∀ {input : Bytes} {idx max idx' : Nat} {tag : UInt8}, asn.getTag input idx max = some (tag, idx') →
    idx < max ∧ idx' = idx + 1
  length : ∀ {input : Bytes} {idx max idx' len : Nat}, asn.getLength input idx max = some (len, idx') →
    idx < idx' ∧ idx' + len ≤ max

theorem exampleAsn_bounded : exampleAsn.Bounded where
  tag {input idx max _ _} read := by
    simp only [exampleAsn, Option.map_eq_some_iff, Prod.mk.injEq] at read
    obtain ⟨tag, first, rfl, rfl⟩ := read
    refine ⟨?_, rfl⟩
    by_contra past
    rw [List.drop_eq_nil_of_le (by simp; omega)] at first
    cases first
  length {input idx max _ _} read := by
    simp only [exampleAsn, Option.map_eq_some_iff, Prod.mk.injEq] at read
    obtain ⟨⟨hdr, tag, clen⟩, found, rfl, rfl⟩ := read
    obtain ⟨header, size⟩ := derReadTlv_le found
    simp only [List.length_drop, List.length_take] at size
    dsimp only
    omega

/-! ## The walks, with the places they look at -/

section Looks

variable (asn : Asn)

/-- `GetASNTag` may look anywhere up to its limit, and so may `GetLength`. -/
def lookTag (input : Bytes) (idx max : Nat) : Looking (Option (UInt8 × Nat)) :=
  .look ⟨idx, max⟩ (asn.getTag input idx max)

def lookLength (input : Bytes) (idx max : Nat) : Looking (Option (Nat × Nat)) :=
  .look ⟨idx, max⟩ (asn.getLength input idx max)

def lookBytes (input : Bytes) (idx n : Nat) : Looking Bytes :=
  .look ⟨idx, idx + n⟩ ((input.drop idx).take n)

def lookTlv (tag : UInt8) (input : Bytes) (idx max : Nat) : Looking (Option (Nat × Nat)) := do
  match ← lookTag asn input idx max with
  | none => pure none
  | some (found, idx) => if found ≠ tag then pure none else lookLength asn input idx max

def lookCritical (ext : Bytes) (idx extEnd : Nat) : Looking (Option Nat) :=
  if idx < extEnd then do
    let first ← lookBytes ext idx 1
    if charAt first = 0x01 then
      match ← lookTag asn ext idx extEnd with
      | none => pure none
      | some (_, idx) =>
          match ← lookLength asn ext idx extEnd with
          | none => pure none
          | some (len, idx) => pure (some (idx + len))
    else pure (some idx)
  else pure (some idx)

/-- The value of the extension; its bytes are looked at when they are copied. -/
def lookSanValue (ext : Bytes) (idx extEnd : Nat) : Looking (Option Bytes) := do
  match ← lookCritical asn ext idx extEnd with
  | none => pure none
  | some idx =>
      match ← lookTlv asn 0x04 ext idx extEnd with
      | none => pure none
      | some (len, idx) => some <$> lookBytes ext idx len

/-- The loop of `wolfcert_find_san`; `none` after so many turns that it has not ended yet. -/
def lookSanFrom (ext : Bytes) (stop : Nat) : Nat → Nat → Looking (Option (Except Rc (Option Bytes)))
  | 0, _ => pure none
  | turns + 1, idx =>
      if idx < stop then do
        match ← lookTlv asn 0x30 ext idx stop with
        | none => pure (some (.error .errParse))
        | some (len, idx) =>
            if len < sanOid.length then lookSanFrom ext stop turns (idx + len)
            else
              let start ← lookBytes ext idx sanOid.length
              if start ≠ sanOid then lookSanFrom ext stop turns (idx + len)
              else
                match ← lookSanValue asn ext (idx + sanOid.length) (idx + len) with
                | none => pure (some (.error .errParse))
                | some san => pure (some (.ok (some san)))
      else pure (some (.ok none))

def lookExtensionList (dc : CertIdentity) : Looking (Option (Nat × Nat)) :=
  let size := dc.extensions.length
  if dc.isCsr then lookTlv asn 0x30 dc.extensions 0 size
  else do
    match ← lookTlv asn 0xA3 dc.extensions 0 size with
    | none => pure none
    | some (_, idx) => lookTlv asn 0x30 dc.extensions idx size

def lookSan (dc : CertIdentity) : Looking (Option (Except Rc (Option Bytes))) :=
  if dc.extensions = [] then pure (some (.ok none))
  else do
    match ← lookExtensionList asn dc with
    | none => pure (some (.error .errParse))
    | some (len, idx) => lookSanFrom asn dc.extensions (idx + len) (dc.extensions.length + 1) idx

/-- The loop of `san_types_issuable`. -/
def lookTypesFrom (san : Bytes) (stop : Nat) : Nat → Nat → Looking (Option Bool)
  | 0, _ => pure none
  | turns + 1, idx =>
      if idx < stop then do
        match ← lookTag asn san idx stop with
        | none => pure (some false)
        | some (tag, idx) =>
            match ← lookLength asn san idx stop with
            | none => pure (some false)
            | some (len, idx) =>
                if tag ∈ [0x81, 0x82, 0x86, 0x87, 0x88] then lookTypesFrom san stop turns (idx + len)
                else pure (some false)
      else pure (some true)

def lookTypes (san : Bytes) : Looking (Option Bool) := do
  match ← lookTlv asn 0x30 san 0 san.length with
  | none => pure (some false)
  | some (len, idx) => lookTypesFrom asn san (idx + len) (san.length + 1) idx

end Looks

section Bounds

variable {asn : Asn} (bounded : asn.Bounded) {input ext : Bytes} {tag : UInt8} {idx max n : Nat}

@[simp] theorem lookTlv_value : (lookTlv asn tag input idx max).value = expectTlv asn tag input idx max := by
  unfold lookTlv expectTlv lookTag lookLength
  rw [Looking.value_bind, Looking.value_look]
  cases asn.getTag input idx max with
  | none => rfl
  | some read =>
      dsimp only
      split <;> rfl

theorem lookTlv_within (le : max ≤ n) : (lookTlv asn tag input idx max).Within n := by
  have inside : ∀ start, Stretch.Inside ⟨start, max⟩ n := fun _ => Stretch.inside_of_le le
  unfold lookTlv lookTag lookLength
  rw [Looking.within_bind, Looking.within_look]
  refine ⟨inside _, ?_⟩
  repeat' split
  all_goals simp [inside]

include bounded in
theorem expectTlv_bounded {len idx' : Nat} (read : expectTlv asn tag input idx max = some (len, idx')) :
    idx < idx' ∧ idx' + len ≤ max := by
  unfold expectTlv at read
  split at read
  · cases read
  · rename_i found next first
    split at read
    · cases read
    · obtain ⟨-, rfl⟩ := bounded.tag first
      have second := bounded.length read
      omega

theorem charAt_take (bytes : Bytes) : charAt (bytes.take 1) = charAt bytes := by
  cases bytes <;> rfl

@[simp] theorem lookCritical_value :
    (lookCritical asn ext idx max).value = skipCritical asn ext idx max := by
  unfold lookCritical skipCritical lookBytes lookTag lookLength
  by_cases before : idx < max
  · by_cases boolean : charAt (ext.drop idx) = 0x01
    · simp only [before, boolean, charAt_take, and_self, if_true, Looking.value_bind, Looking.value_look]
      cases asn.getTag ext idx max with
      | none => rfl
      | some read =>
          simp only [Looking.value_bind, Looking.value_look]
          cases asn.getLength ext read.2 max <;> rfl
    · simp [before, boolean, charAt_take]
  · simp [before]

theorem lookCritical_within (le : max ≤ n) : (lookCritical asn ext idx max).Within n := by
  have inside : ∀ start, Stretch.Inside ⟨start, max⟩ n := fun _ => Stretch.inside_of_le le
  unfold lookCritical lookBytes lookTag lookLength
  split
  · rename_i before
    rw [Looking.within_bind, Looking.within_look]
    refine ⟨Stretch.inside_of_le (by simp only; omega), ?_⟩
    split
    · rw [Looking.within_bind, Looking.within_look]
      refine ⟨inside _, ?_⟩
      split
      · simp
      · rw [Looking.within_bind, Looking.within_look]
        refine ⟨inside _, ?_⟩
        split <;> simp
    · simp
  · simp

@[simp] theorem lookSanValue_value :
    (lookSanValue asn ext idx max).value = sanValue asn ext idx max := by
  unfold lookSanValue sanValue
  rw [Looking.value_bind, lookCritical_value]
  cases skipCritical asn ext idx max with
  | none => rfl
  | some idx =>
      simp only [Looking.value_bind, lookTlv_value]
      cases expectTlv asn 0x04 ext idx max <;> rfl

include bounded in
theorem lookSanValue_within (le : max ≤ n) : (lookSanValue asn ext idx max).Within n := by
  unfold lookSanValue
  rw [Looking.within_bind, lookCritical_value]
  refine ⟨lookCritical_within le, ?_⟩
  split
  · simp
  · rw [Looking.within_bind, lookTlv_value]
    refine ⟨lookTlv_within le, ?_⟩
    split
    · simp
    · rename_i len idx' read
      have bound := expectTlv_bounded bounded read
      change Looking.Within (lookBytes ext idx' len >>= fun bytes => pure (some bytes)) n
      rw [Looking.within_bind]
      exact ⟨Looking.within_look.mpr (Stretch.inside_of_le (by simp only; omega)), by simp⟩

include bounded in
/-- The loop ends within as many turns as there are bytes before the end, and stays before it. -/
theorem lookSanFrom_spec {stop turns : Nat} (le : stop ≤ n) (enough : stop - idx < turns) :
    (lookSanFrom asn ext stop turns idx).value = some (findSanFrom asn ext stop turns idx) ∧
      (lookSanFrom asn ext stop turns idx).Within n := by
  induction turns generalizing idx with
  | zero => omega
  | succ turns ih =>
      unfold lookSanFrom findSanFrom
      by_cases before : idx < stop
      · simp only [before, if_true, Looking.value_bind, Looking.within_bind, lookTlv_value,
          lookTlv_within le, true_and]
        cases read : expectTlv asn 0x30 ext idx stop with
        | none => simp
        | some header =>
            obtain ⟨len, start⟩ := header
            have bound := expectTlv_bounded bounded read
            have fewer : stop - (start + len) < turns := by omega
            have next := ih fewer
            dsimp only
            by_cases short : len < sanOid.length
            · simpa [short] using next
            · have oid : Stretch.Inside ⟨start, start + sanOid.length⟩ n :=
                Stretch.inside_of_le (by simp only; omega)
              by_cases other : (ext.drop start).take sanOid.length = sanOid
              · simp only [short, other, lookBytes, if_false, ne_eq, not_true, or_self, Looking.value_bind,
                  Looking.within_bind, Looking.value_look, Looking.within_look, oid, true_and,
                  lookSanValue_value, lookSanValue_within bounded (Nat.le_trans bound.2 le)]
                cases sanValue asn ext (start + sanOid.length) (start + len) <;> simp
              · simpa [short, other, lookBytes, oid] using next
      · simp [before]

include bounded in
theorem lookSan_spec (dc : CertIdentity) :
    (lookSan asn dc).value = some (findSan asn dc) ∧ (lookSan asn dc).Within dc.extensions.length := by
  have list : (lookExtensionList asn dc).value = extensionList asn dc ∧
      (lookExtensionList asn dc).Within dc.extensions.length := by
    unfold lookExtensionList extensionList
    split
    · exact ⟨lookTlv_value, lookTlv_within (Nat.le_refl _)⟩
    · simp only [Looking.value_bind, Looking.within_bind, lookTlv_value, lookTlv_within (Nat.le_refl _),
        true_and]
      cases expectTlv asn 0xA3 dc.extensions 0 dc.extensions.length with
      | none => simp
      | some wrap => exact ⟨lookTlv_value, lookTlv_within (Nat.le_refl _)⟩
  unfold lookSan findSan
  split
  · simp
  · rw [Looking.value_bind, Looking.within_bind, list.1]
    cases read : extensionList asn dc with
    | none => exact ⟨rfl, list.2, by simp⟩
    | some header =>
        obtain ⟨len, idx⟩ := header
        have bound : idx + len ≤ dc.extensions.length := by
          unfold extensionList at read
          dsimp only at read
          split at read
          · exact (expectTlv_bounded bounded read).2
          · split at read
            · cases read
            · exact (expectTlv_bounded bounded read).2
        have enough : idx + len - idx < dc.extensions.length + 1 := by omega
        exact ⟨(lookSanFrom_spec bounded bound enough).1, list.2, (lookSanFrom_spec bounded bound enough).2⟩

end Bounds

/-! ## General names -/

/-- `GeneralName ::= CHOICE`, by its context tag. -/
inductive NameForm where
  | otherName | rfc822Name | dNSName | x400Address | directoryName | ediPartyName | uri | iPAddress
  | registeredID
deriving DecidableEq, Repr

def NameForm.tag : NameForm → UInt8
  | .otherName => 0xA0
  | .rfc822Name => 0x81
  | .dNSName => 0x82
  | .x400Address => 0xA3
  | .directoryName => 0xA4
  | .ediPartyName => 0xA5
  | .uri => 0x86
  | .iPAddress => 0x87
  | .registeredID => 0x88

/-- The forms the test CA issues. -/
def NameForm.Issuable : NameForm → Prop
  | .rfc822Name | .dNSName | .uri | .iPAddress | .registeredID => True
  | .otherName | .x400Address | .directoryName | .ediPartyName => False

instance (form : NameForm) : Decidable form.Issuable := by
  cases form <;> unfold NameForm.Issuable <;> infer_instance

theorem issuable_tag_iff (form : NameForm) :
    form.tag ∈ ([0x81, 0x82, 0x86, 0x87, 0x88] : List UInt8) ↔ form.Issuable := by
  cases form <;> decide

theorem issuable_tags_iff (tag : UInt8) :
    tag ∈ ([0x81, 0x82, 0x86, 0x87, 0x88] : List UInt8) ↔ ∃ form : NameForm, form.Issuable ∧ form.tag = tag := by
  constructor
  · simp only [List.mem_cons, List.not_mem_nil, or_false]
    rintro (rfl | rfl | rfl | rfl | rfl)
    · exact ⟨.rfc822Name, trivial, rfl⟩
    · exact ⟨.dNSName, trivial, rfl⟩
    · exact ⟨.uri, trivial, rfl⟩
    · exact ⟨.iPAddress, trivial, rfl⟩
    · exact ⟨.registeredID, trivial, rfl⟩
  · rintro ⟨form, issuable, rfl⟩
    exact (issuable_tag_iff form).mpr issuable

/-- The tags that the readers of wolfSSL find one after the other from `idx` on. -/
inductive NamesAt (asn : Asn) (san : Bytes) (stop : Nat) : Nat → List UInt8 → Prop where
  | done {idx : Nat} (past : stop ≤ idx) : NamesAt asn san stop idx []
  | name {idx next start len : Nat} {tag : UInt8} {tags : List UInt8} (before : idx < stop)
      (first : asn.getTag san idx stop = some (tag, next))
      (second : asn.getLength san next stop = some (len, start))
      (rest : NamesAt asn san stop (start + len) tags) : NamesAt asn san stop idx (tag :: tags)

/-- The bytes start with a SEQUENCE, and every name in it has a form that is issued. -/
def IssuableNames (asn : Asn) (san : Bytes) : Prop :=
  ∃ len start tags, expectTlv asn 0x30 san 0 san.length = some (len, start) ∧
    NamesAt asn san (start + len) start tags ∧ ∀ tag ∈ tags, ∃ form : NameForm, form.Issuable ∧ form.tag = tag

inductive AreNames : List (NameForm × Bytes) → Bytes → Prop where
  | nil : AreNames [] []
  | cons {name : NameForm × Bytes} {names : List (NameForm × Bytes)} {first rest : Bytes}
      (head : IsTlv name.1.tag name.2 first) (tail : AreNames names rest) :
      AreNames (name :: names) (first ++ rest)

/-- `GeneralNames ::= SEQUENCE OF GeneralName`, in DER. -/
def IsGeneralNames (names : List (NameForm × Bytes)) (san : Bytes) : Prop :=
  ∃ body, AreNames names body ∧ IsTlv 0x30 body san

end WolfCert

namespace WolfCert.Server

open WolfCert.CLib WolfCert.Scep

section Types

variable {σ : Type} {env : IssueCrypto σ} {san : Bytes} {stop idx n : Nat}

section Bounded

variable (bounded : env.asn.Bounded)

include bounded

theorem sanTypesFrom_iff {fuel : Nat} (enough : stop - idx < fuel) :
    sanTypesFrom env san stop fuel idx = true ↔ ∃ tags, NamesAt env.asn san stop idx tags ∧
      ∀ tag ∈ tags, ∃ form : NameForm, form.Issuable ∧ form.tag = tag := by
  induction fuel generalizing idx with
  | zero => omega
  | succ fuel ih =>
      unfold sanTypesFrom
      by_cases before : idx < stop
      · rw [if_pos before]
        constructor
        · intro passed
          split at passed
          · cases passed
          · rename_i tag next first
            split at passed
            · cases passed
            · rename_i len start second
              obtain ⟨-, rfl⟩ := bounded.tag first
              have bound := bounded.length second
              split at passed
              · rename_i issued
                obtain ⟨tags, rest, issuable⟩ := (ih (by omega)).mp passed
                refine ⟨tag :: tags, .name before first second rest, ?_⟩
                exact List.forall_mem_cons.mpr ⟨(issuable_tags_iff tag).mp issued, issuable⟩
              · cases passed
        · rintro ⟨tags, names, issuable⟩
          cases names with
          | done past => omega
          | name _ first second rest =>
              obtain ⟨-, rfl⟩ := bounded.tag first
              have bound := bounded.length second
              obtain ⟨issued, others⟩ := List.forall_mem_cons.mp issuable
              rw [first]
              dsimp only
              rw [second]
              dsimp only
              rw [if_pos ((issuable_tags_iff _).mpr issued)]
              exact (ih (by omega)).mpr ⟨_, rest, others⟩
      · rw [if_neg before]
        exact ⟨fun _ => ⟨[], .done (by omega), by simp⟩, fun _ => rfl⟩

theorem sanTypesIssuable_iff : sanTypesIssuable env san = true ↔ IssuableNames env.asn san := by
  unfold sanTypesIssuable IssuableNames
  cases read : expectTlv env.asn 0x30 san 0 san.length with
  | none => simp
  | some header =>
      obtain ⟨len, start⟩ := header
      have bound := expectTlv_bounded bounded read
      dsimp only
      rw [sanTypesFrom_iff bounded (by omega)]
      constructor
      · rintro ⟨tags, names, issuable⟩
        exact ⟨len, start, tags, rfl, names, issuable⟩
      · rintro ⟨len', start', tags, same, names, issuable⟩
        cases same
        exact ⟨tags, names, issuable⟩

theorem lookTypesFrom_spec {turns : Nat} (le : stop ≤ n) (enough : stop - idx < turns) :
    (lookTypesFrom env.asn san stop turns idx).value = some (sanTypesFrom env san stop turns idx) ∧
      (lookTypesFrom env.asn san stop turns idx).Within n := by
  have inside : ∀ start, Stretch.Inside ⟨start, stop⟩ n := fun _ => Stretch.inside_of_le le
  induction turns generalizing idx with
  | zero => omega
  | succ turns ih =>
      unfold lookTypesFrom sanTypesFrom lookTag lookLength
      by_cases before : idx < stop
      · simp only [before, if_true, Looking.value_bind, Looking.within_bind, Looking.value_look,
          Looking.within_look, inside, true_and]
        cases first : env.asn.getTag san idx stop with
        | none => simp
        | some tagged =>
            obtain ⟨tag, next⟩ := tagged
            obtain ⟨-, rfl⟩ := bounded.tag first
            simp only [Looking.value_bind, Looking.within_bind, Looking.value_look, Looking.within_look,
              inside, true_and]
            cases second : env.asn.getLength san (idx + 1) stop with
            | none => simp
            | some sized =>
                obtain ⟨len, start⟩ := sized
                have bound := bounded.length second
                dsimp only
                split
                · exact ih (by omega)
                · simp
      · simp [before]

theorem lookTypes_spec : (lookTypes env.asn san).value = some (sanTypesIssuable env san) ∧
    (lookTypes env.asn san).Within san.length := by
  unfold lookTypes sanTypesIssuable
  rw [Looking.value_bind, Looking.within_bind, lookTlv_value]
  cases read : expectTlv env.asn 0x30 san 0 san.length with
  | none => exact ⟨rfl, lookTlv_within (Nat.le_refl _), by simp⟩
  | some header =>
      obtain ⟨len, start⟩ := header
      have bound := expectTlv_bounded bounded read
      have enough : start + len - start < san.length + 1 := by omega
      exact ⟨(lookTypesFrom_spec bounded bound.2 enough).1, lookTlv_within (Nat.le_refl _),
        (lookTypesFrom_spec bounded bound.2 enough).2⟩

end Bounded

section Lawful

variable (lawful : env.asn.Lawful)

include lawful

theorem sanTypesFrom_names {names : List (NameForm × Bytes)} {body : Bytes} (are : AreNames names body)
    (here : (san.take stop).drop idx = body) (within : idx + body.length = stop) {fuel : Nat}
    (enough : body.length < fuel) :
    sanTypesFrom env san stop fuel idx = true ↔ ∀ name ∈ names, name.1.Issuable := by
  induction are generalizing idx fuel with
  | nil =>
      obtain ⟨fuel, rfl⟩ : ∃ f, fuel = f + 1 := ⟨fuel - 1, by omega⟩
      simp only [List.length_nil] at within
      simp [sanTypesFrom, show ¬ idx < stop by omega]
  | cons head tail ih =>
      rename_i name names first rest
      obtain ⟨fuel, rfl⟩ : ∃ f, fuel = f + 1 := ⟨fuel - 1, by omega⟩
      have positive := List.length_pos_iff.mpr head.filled
      rw [List.length_append] at within enough
      have content : name.2.length ≤ first.length := by
        obtain ⟨len, rfl, -⟩ := head.cons
        simp only [List.length_append]
        omega
      have after : (san.take stop).drop (idx + (first.length - name.2.length) + name.2.length) = rest := by
        rw [Nat.add_assoc, Nat.sub_add_cancel content, ← List.drop_drop, here, List.drop_left]
      rw [sanTypesFrom, if_pos (by omega), lawful.tag head here]
      dsimp only
      rw [lawful.length head here]
      dsimp only
      have fewer : rest.length < fuel := by omega
      rw [List.forall_mem_cons, ← ih after (by omega) fewer]
      by_cases issued : name.1.Issuable
      · rw [if_pos ((issuable_tag_iff _).mpr issued)]
        simp [issued]
      · rw [if_neg (fun tag => issued ((issuable_tag_iff _).mp tag))]
        simp [issued]

/-- In the DER of general names the forms are those of the names. -/
theorem sanTypesIssuable_names {names : List (NameForm × Bytes)} (are : IsGeneralNames names san) :
    sanTypesIssuable env san = true ↔ ∀ name ∈ names, name.1.Issuable := by
  obtain ⟨body, are, list⟩ := are
  have here : (san.take san.length).drop 0 = san ++ [] := by simp
  obtain ⟨hdr, expected, size, split⟩ := expectTlv_tlv lawful list here
  have content := drop_content size split here
  rw [List.append_nil, Nat.zero_add] at content
  rw [sanTypesIssuable, expected]
  exact sanTypesFrom_names lawful are (by rw [Nat.zero_add, ← size]; exact content) (by omega) (by omega)

end Lawful

/-- The extensions of a request; without any there is no list. -/
def AreCsrExtensions (es : List Extension) (encoded : Bytes) : Prop :=
  (es = [] ∧ encoded = []) ∨ ∃ body, AreExtensions es body ∧ IsTlv 0x30 body encoded

/-- The certificate gets the first alternative name of the request, and only if its names are of the
forms that are issued. On any input the two walks end and stay inside it. -/
theorem copy_csr_san_policy (lawful : env.asn.Lawful) (bounded : env.asn.Bounded) :
    (∀ {dc : CertIdentity} {es : List Extension}, dc.isCsr = true → AreCsrExtensions es dc.extensions →
      ∀ altNames, copyCsrSan env dc = .ok altNames ↔
        match es.find? (·.oid = [0x55, 0x1D, 0x11]) with
        | none => altNames = []
        | some e => altNames = e.value ∧ e.value.length ≤ env.altNamesSize ∧ IssuableNames env.asn e.value) ∧
      (∀ {names : List (NameForm × Bytes)} {san : Bytes}, IsGeneralNames names san →
        (IssuableNames env.asn san ↔ ∀ name ∈ names, name.1.Issuable)) ∧
      (∀ dc : CertIdentity, (lookSan env.asn dc).value = some (findSan env.asn dc) ∧
        (lookSan env.asn dc).Within dc.extensions.length) ∧
      ∀ san : Bytes, (lookTypes env.asn san).value = some (sanTypesIssuable env san) ∧
        (lookTypes env.asn san).Within san.length := by
  refine ⟨?_, ?_, lookSan_spec bounded, fun san => lookTypes_spec bounded⟩
  · intro dc es csr are altNames
    have found : findSan env.asn dc = .ok ((es.find? (·.oid = [0x55, 0x1D, 0x11])).map Extension.value) := by
      rcases are with ⟨rfl, empty⟩ | ⟨body, are, list⟩
      · simp [findSan, empty]
      · exact findSan_csr lawful csr are list
    rw [copyCsrSan, found]
    cases es.find? (·.oid = [0x55, 0x1D, 0x11]) with
    | none => simp [eq_comm]
    | some e =>
        simp only [Option.map_some, ← sanTypesIssuable_iff bounded]
        split
        · rename_i long
          simp [Nat.not_le.mpr long]
        · rename_i short
          cases sanTypesIssuable env e.value <;> simp [Nat.not_lt.mp short, eq_comm]
  · intro names san are
    rw [← sanTypesIssuable_iff bounded, sanTypesIssuable_names lawful are]

/-! A request with one dNSName. -/

def exampleSan : Bytes := [0x30, 3, 0x82, 1, 0x61]

def exampleSanRequest : CertIdentity where
  isCsr := true
  subjectRaw := none
  extensions := [0x30, 14, 0x30, 12, 0x06, 3, 0x55, 0x1D, 0x11, 0x04, 5] ++ exampleSan
  extSubjAltNameCrit := false

theorem exampleSanRequest_are :
    AreCsrExtensions [⟨[0x55, 0x1D, 0x11], false, exampleSan⟩] exampleSanRequest.extensions := by
  have one : IsExtension ⟨[0x55, 0x1D, 0x11], false, exampleSan⟩
      ([0x30, 12, 0x06, 3, 0x55, 0x1D, 0x11, 0x04, 5] ++ exampleSan) :=
    ⟨[0x06, 3, 0x55, 0x1D, 0x11], [], [0x04, 5] ++ exampleSan, ⟨5, rfl⟩, rfl, ⟨7, rfl⟩, 14, rfl⟩
  exact .inr ⟨_, .cons one .nil, 16, rfl⟩

theorem copy_csr_san_policy_dns : copyCsrSan exampleIssue exampleSanRequest = .ok exampleSan := by
  have lawful : exampleIssue.asn.Lawful := exampleAsn_lawful
  obtain ⟨copied, forms, -, -⟩ := copy_csr_san_policy lawful exampleAsn_bounded
  have one : IsTlv NameForm.dNSName.tag [0x61] [0x82, 1, 0x61] := ⟨3, rfl⟩
  have names : IsGeneralNames [(.dNSName, [0x61])] exampleSan := ⟨_, .cons one .nil, 5, rfl⟩
  exact (copied rfl exampleSanRequest_are exampleSan).mpr ⟨rfl, by decide, (forms names).mpr (by decide)⟩

end Types

end WolfCert.Server
