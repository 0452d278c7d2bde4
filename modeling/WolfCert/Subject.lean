import Mathlib.Data.List.Pairwise
import Mathlib.Data.List.TakeDrop
import WolfCert.Server.Issue

/-!
# The subject of a request

A subject DN is a list of elements, each of which names a member of the subject. What the parser returns is
the subject with those members assigned one after the other.
-/

namespace WolfCert

open WolfCert.CLib WolfCert.Server

/-! ## Elements -/

/-- What stands between the commas; nothing need follow the last one. -/
def dnElements (dn : Bytes) : List Bytes :=
  let pieces := dn.splitOn 44
  if pieces.getLast? = some [] then pieces.dropLast else pieces

def elementKey (element : Bytes) : Bytes := trimWs (element.takeWhile (· ≠ 61))

def elementValue (element : Bytes) : Bytes := trimWs ((element.dropWhile (· ≠ 61)).drop 1)

theorem dnElements_nil : dnElements [] = [] := rfl

theorem dnElements_comma {element : Bytes} (solid : 44 ∉ element) (rest : Bytes) :
    dnElements (element ++ 44 :: rest) = element :: dnElements rest := by
  have cut : (element ++ 44 :: rest).splitOn 44 = element :: rest.splitOn 44 := by
    rw [List.splitOn, List.splitOnP_append_cons_of_forall_mem (beq_of_not_mem solid) _ (by decide)]
    rfl
  have some_ : rest.splitOn 44 ≠ [] := List.splitOnP_ne_nil _ _
  obtain ⟨first, others, shape⟩ := List.exists_cons_of_ne_nil some_
  simp only [dnElements, cut, shape, List.getLast?_cons_cons, List.dropLast_cons_cons]
  split <;> rfl

theorem dnElements_last {element : Bytes} (solid : 44 ∉ element) (filled : element ≠ []) :
    dnElements element = [element] := by
  have whole : element.splitOn 44 = [element] := List.splitOnP_eq_singleton (beq_of_not_mem solid)
  simp [dnElements, whole, filled]

section Elements

variable {σ : Type} (env : CsrCrypto σ)

/-- The member an element names. -/
def elementField (element : Bytes) : Option NameField :=
  ((rdnFields env.hasCertExt).find? (·.1 = elementKey element)).map (·.2)

/-- The member can hold the value, and the encoder will take it. -/
def Storable (field : NameField) (value : Bytes) : Prop :=
  value.length < env.ctcNameSize ∧
    (field = .country ∨ field = .serialDev → isPrintableString value = true) ∧
    (field = .email → ∀ c ∈ value, c < 0x80)

structure WellFormed (element : Bytes) : Prop where
  assigns : 61 ∈ element
  value : elementValue element ≠ []
  field : ∃ field, elementField env element = some field ∧ Storable env field (elementValue element)

def assignElement (subject : CertName) (element : Bytes) : CertName :=
  (elementField env element).elim subject fun field => subject.set field (elementValue element)

/-! ## One element -/

theorem strchr_cut {c : UInt8} {text : Bytes} (inside : c ∈ text) :
    strchr c text = some (text.dropWhile (· ≠ c)) := by
  obtain ⟨front, rest, rfl, absent⟩ := List.eq_append_cons_of_mem inside
  have solid : ∀ b ∈ front, decide (b ≠ c) = true :=
    fun b member => decide_eq_true fun same => absent (same ▸ member)
  rw [strchr_of_not_mem absent, List.dropWhile_append_of_pos solid]
  simp

theorem take_cut {c : UInt8} (text : Bytes) :
    text.take (text.length - (text.dropWhile (· ≠ c)).length) = text.takeWhile (· ≠ c) := by
  have parted := List.takeWhile_append_dropWhile (p := fun b => decide (b ≠ c)) (l := text)
  have sizes := congrArg List.length parted
  rw [List.length_append] at sizes
  have front : text.length - (text.dropWhile (· ≠ c)).length = (text.takeWhile (· ≠ c)).length := by
    omega
  rw [front]
  conv_lhs => arg 2; rw [← parted]
  rw [List.take_left]

theorem rdnFields_keys (hasCertExt : Bool) : ∀ entry ∈ rdnFields hasCertExt, entry.1 ≠ [] := by
  cases hasCertExt <;> decide

variable {env}

theorem assignRdn_ok_iff {subject subject' : CertName} {element : Bytes} :
    assignRdn env subject (elementKey element) (elementValue element) = .ok subject' ↔
      (∃ field, elementField env element = some field ∧ Storable env field (elementValue element)) ∧
        subject' = assignElement env subject element := by
  cases found : (rdnFields env.hasCertExt).find? (·.1 = elementKey element) with
  | none => simp [assignRdn, elementField, found]
  | some entry =>
      obtain ⟨name, field⟩ := entry
      have named : elementField env element = some field := by
        rw [elementField, found]
        rfl
      have storable : Storable env field (elementValue element) ↔
          ¬(elementValue element).length ≥ env.ctcNameSize ∧
            ¬((field = .country ∨ field = .serialDev) ∧ isPrintableString (elementValue element) = false) ∧
            ¬(field = .email ∧ (elementValue element).any (· ≥ 0x80) = true) := by
        simp [Storable]
      simp only [assignRdn, found, assignElement, named, Option.some.injEq, exists_eq_left', Option.elim_some,
        storable]
      by_cases long : (elementValue element).length ≥ env.ctcNameSize
      · simp [long]
      by_cases unprintable :
          (field = .country ∨ field = .serialDev) ∧ isPrintableString (elementValue element) = false
      · simp [long, unprintable]
      by_cases wide : field = .email ∧ (elementValue element).any (· ≥ 0x80) = true
      · rw [if_neg long, if_neg unprintable, if_pos wide]
        exact iff_of_false nofun fun held => held.1.2.2 wide
      · rw [if_neg long, if_neg unprintable, if_neg wide, Except.ok.injEq, eq_comm]
        exact (and_iff_right ⟨long, unprintable, wide⟩).symm

theorem WellFormed.key {element : Bytes} (formed : WellFormed env element) : elementKey element ≠ [] := by
  obtain ⟨field, named, -⟩ := formed.field
  obtain ⟨entry, found, -⟩ := Option.map_eq_some_iff.mp named
  have same := List.find?_some found
  rw [decide_eq_true_eq] at same
  exact same ▸ rdnFields_keys _ _ (List.mem_of_find?_eq_some found)

/-- The loop takes an element and goes on behind its comma, if there is one. -/
theorem parseRdns_step {fuel : Nat} {subject subject' : CertName} {element next : Bytes}
    (solid : 44 ∉ element) (ends : ∀ c ∈ next.head?, c = 44) (filled : element ++ next ≠ []) :
    parseRdns env (fuel + 1) (element ++ next) subject = .ok subject' ↔
      WellFormed env element ∧
        (if next = [] then .ok (assignElement env subject element)
          else parseRdns env fuel next.tail (assignElement env subject element)) = .ok subject' := by
  have front : ∀ c ∈ element, decide (c ≠ 44) = true := by
    intro c inside
    exact decide_eq_true fun same => solid (same ▸ inside)
  have stops : next.takeWhile (· ≠ 44) = [] ∧ next.dropWhile (· ≠ 44) = next := by
    cases next with
    | nil => exact ⟨rfl, rfl⟩
    | cons c rest => simp [ends c rfl]
  have cut : (element ++ next).span (· ≠ 44) = (element, next) := by
    rw [List.span_eq_takeWhile_dropWhile, List.takeWhile_append_of_pos front,
      List.dropWhile_append_of_pos front, stops.1, stops.2, List.append_nil]
  rw [parseRdns, if_neg filled, cut]
  by_cases assigns : 61 ∈ element
  · have key : trimWs (element.take (element.length - (element.dropWhile (· ≠ 61)).length)) =
        elementKey element := by
      rw [take_cut, elementKey]
    have value : trimWs ((element.dropWhile (· ≠ 61)).drop 1) = elementValue element := rfl
    simp only [strchr_cut assigns, key, value]
    by_cases blank : elementKey element = [] ∨ elementValue element = []
    · rw [if_pos blank]
      exact iff_of_false (by simp) fun formed => blank.elim formed.1.key formed.1.value
    · rw [if_neg blank]
      obtain ⟨-, filledValue⟩ := not_or.mp blank
      cases assigned : assignRdn env subject (elementKey element) (elementValue element) with
      | error rc =>
          refine iff_of_false nofun fun formed => ?_
          have stored : assignRdn env subject (elementKey element) (elementValue element) =
              .ok (assignElement env subject element) :=
            assignRdn_ok_iff.mpr ⟨formed.1.field, rfl⟩
          rw [stored] at assigned
          cases assigned
      | ok subject₁ =>
          obtain ⟨field, rfl⟩ := assignRdn_ok_iff.mp assigned
          rw [and_iff_right ⟨assigns, filledValue, field⟩]
          cases next with
          | nil => rfl
          | cons c rest => rfl
  · simp only [strchr_absent assigns]
    exact iff_of_false nofun fun formed => assigns formed.1.assigns

/-! ## The whole DN -/

theorem parseRdns_ok_iff {fuel : Nat} {dn : Bytes} (enough : dn.length ≤ fuel) {subject subject' : CertName} :
    parseRdns env fuel dn subject = .ok subject' ↔
      (∀ element ∈ dnElements dn, WellFormed env element) ∧
        subject' = (dnElements dn).foldl (assignElement env) subject := by
  induction fuel generalizing dn subject with
  | zero =>
      obtain rfl := List.length_eq_zero_iff.mp (Nat.le_zero.mp enough)
      simp [parseRdns, dnElements_nil, eq_comm]
  | succ fuel ih =>
      by_cases empty : dn = []
      · subst empty
        simp [parseRdns, dnElements_nil, eq_comm]
      by_cases comma : 44 ∈ dn
      · obtain ⟨element, rest, rfl, solid⟩ := List.eq_append_cons_of_mem comma
        have fewer : rest.length ≤ fuel := by
          rw [List.length_append, List.length_cons] at enough
          omega
        rw [parseRdns_step solid (by simp) empty, if_neg (List.cons_ne_nil _ _), List.tail_cons, ih fewer,
          dnElements_comma solid, List.forall_mem_cons, List.foldl_cons, and_assoc]
      · have step : parseRdns env (fuel + 1) (dn ++ []) subject = .ok subject' ↔ _ :=
          parseRdns_step comma (by simp) (by simpa using empty)
        rw [List.append_nil, if_pos rfl, Except.ok.injEq] at step
        rw [step, dnElements_last comma empty]
        simp [eq_comm]

theorem parseSubjectDn_ok_iff {dn : Bytes} {subject subject' : CertName} :
    parseSubjectDn env (some dn) subject = .ok subject' ↔
      (∀ element ∈ dnElements dn, WellFormed env element) ∧
        subject' = (dnElements dn).foldl (assignElement env) subject :=
  parseRdns_ok_iff (Nat.le_refl _)

/-! ## What is assigned -/

theorem assignElement_other {element : Bytes} {field : NameField}
    (other : elementField env element ≠ some field) (subject : CertName) :
    assignElement env subject element field = subject field := by
  cases named : elementField env element with
  | none => simp [assignElement, named]
  | some f =>
      have differ : field ≠ f := by
        rintro rfl
        exact other named
      simp [assignElement, named, CertName.set, differ]

theorem assigned_other {elements : List Bytes} {field : NameField}
    (others : ∀ element ∈ elements, elementField env element ≠ some field) (subject : CertName) :
    elements.foldl (assignElement env) subject field = subject field := by
  induction elements generalizing subject with
  | nil => rfl
  | cons element rest ih =>
      obtain ⟨other, later⟩ := List.forall_mem_cons.mp others
      rw [List.foldl_cons, ih later, assignElement_other other]

/-- A member holds the value of the last element that names it. -/
theorem assigned_last {before after : List Bytes} {element : Bytes} {field : NameField}
    (named : elementField env element = some field)
    (last : ∀ later ∈ after, elementField env later ≠ some field) (subject : CertName) :
    (before ++ element :: after).foldl (assignElement env) subject field = elementValue element := by
  rw [List.foldl_append, List.foldl_cons, assigned_other last]
  simp [assignElement, named, CertName.set]

/-- There is a last element that names a member, if any does. -/
theorem last_named {elements : List Bytes} {element : Bytes} {field : NameField} (inside : element ∈ elements)
    (named : elementField env element = some field) :
    ∃ before last after, elements = before ++ last :: after ∧ elementField env last = some field ∧
      ∀ later ∈ after, elementField env later ≠ some field := by
  induction elements generalizing element with
  | nil => cases inside
  | cons first rest ih =>
      by_cases more : ∃ later ∈ rest, elementField env later = some field
      · obtain ⟨later, behind, again⟩ := more
        obtain ⟨before, last, after, rfl, found, none⟩ := ih behind again
        exact ⟨first :: before, last, after, rfl, found, none⟩
      · have none : ∀ later ∈ rest, elementField env later ≠ some field :=
          fun later behind again => more ⟨later, behind, again⟩
        rcases List.mem_cons.mp inside with rfl | behind
        · exact ⟨[], element, rest, rfl, named, none⟩
        · exact absurd named (none element behind)

variable (env) in
/-- Every element is there, and nothing else has changed. -/
def LosesNothing (dn : Bytes) (subject subject' : CertName) : Prop :=
  (∀ element ∈ dnElements dn,
    ∃ field, elementField env element = some field ∧ subject' field = elementValue element) ∧
  ∀ field, (∀ element ∈ dnElements dn, elementField env element ≠ some field) → subject' field = subject field

variable (env) in
/-- No member is named by two elements. -/
def NamedOnce (dn : Bytes) : Prop :=
  (dnElements dn).Pairwise fun element later =>
    ∀ field, elementField env element = some field → elementField env later ≠ some field

section Accepted

variable {dn : Bytes} {subject subject' : CertName}
  (accepted : parseSubjectDn env (some dn) subject = .ok subject')

include accepted

theorem accepted_named {element : Bytes} (inside : element ∈ dnElements dn) :
    ∃ field, elementField env element = some field := by
  obtain ⟨field, named, -⟩ := ((parseSubjectDn_ok_iff.mp accepted).1 element inside).field
  exact ⟨field, named⟩

theorem accepted_other {field : NameField}
    (others : ∀ element ∈ dnElements dn, elementField env element ≠ some field) :
    subject' field = subject field := by
  rw [(parseSubjectDn_ok_iff.mp accepted).2, assigned_other others]

theorem accepted_last {before after : List Bytes} {element : Bytes} {field : NameField}
    (shape : dnElements dn = before ++ element :: after) (named : elementField env element = some field)
    (last : ∀ later ∈ after, elementField env later ≠ some field) : subject' field = elementValue element := by
  rw [(parseSubjectDn_ok_iff.mp accepted).2, shape, assigned_last named last]

theorem losesNothing_iff :
    LosesNothing env dn subject subject' ↔
      ∀ element ∈ dnElements dn, ∀ other ∈ dnElements dn,
        elementField env element = elementField env other → elementValue element = elementValue other := by
  constructor
  · rintro ⟨present, -⟩ element inside other inside' same
    obtain ⟨field, named, holds⟩ := present element inside
    obtain ⟨field', named', holds'⟩ := present other inside'
    obtain rfl : field = field' := Option.some.inj (named.symm.trans (same.trans named'))
    exact holds.symm.trans holds'
  · intro agree
    refine ⟨fun element inside => ?_, fun field => accepted_other accepted⟩
    obtain ⟨field, named⟩ := accepted_named accepted inside
    obtain ⟨before, last, after, shape, named', none⟩ := last_named inside named
    have behind : last ∈ dnElements dn := by simp [shape]
    refine ⟨field, named, ?_⟩
    rw [accepted_last accepted shape named' none, agree element inside last behind (named.trans named'.symm)]

theorem losesNothing_of_namedOnce (once : NamedOnce env dn) : LosesNothing env dn subject subject' := by
  have symmetric : Std.Symm fun element other : Bytes =>
      elementField env element = elementField env other → elementValue element = elementValue other :=
    ⟨fun _ _ agree same => (agree same.symm).symm⟩
  have agree : (dnElements dn).Pairwise fun element other =>
      elementField env element = elementField env other → elementValue element = elementValue other := by
    refine once.imp_of_mem fun {element other} inside _ distinct same => ?_
    obtain ⟨field, named⟩ := accepted_named accepted inside
    exact absurd (same.symm.trans named) (distinct field named)
  exact (losesNothing_iff accepted).mpr fun element inside other inside' =>
    agree.forall_of_forall (fun _ _ _ => rfl) inside inside'

end Accepted

/-- An accepted DN has changed the members it names and no other; each holds the last of the values given for
it. So nothing is lost, and no member is named twice, exactly for the DNs that name none twice or are refused
for one of their elements alone. -/
theorem subject_dn_kept (dn : Bytes) :
    ((∀ subject subject', parseSubjectDn env (some dn) subject = .ok subject' →
        LosesNothing env dn subject subject' ∧ NamedOnce env dn) ↔
      NamedOnce env dn ∨ ∃ element ∈ dnElements dn, ¬WellFormed env element) ∧
    ∀ subject subject', parseSubjectDn env (some dn) subject = .ok subject' →
      (∀ field, (∀ element ∈ dnElements dn, elementField env element ≠ some field) →
        subject' field = subject field) ∧
      (∀ before element after field, dnElements dn = before ++ element :: after →
        elementField env element = some field →
        (∀ later ∈ after, elementField env later ≠ some field) → subject' field = elementValue element) ∧
      (LosesNothing env dn subject subject' ↔
        ∀ element ∈ dnElements dn, ∀ other ∈ dnElements dn,
          elementField env element = elementField env other → elementValue element = elementValue other) := by
  refine ⟨⟨fun keeps => ?_, ?_⟩, fun subject subject' accepted => ⟨fun _ => accepted_other accepted,
    fun _ _ _ _ => accepted_last accepted, losesNothing_iff accepted⟩⟩
  · by_cases formed : ∀ element ∈ dnElements dn, WellFormed env element
    · exact .inl (keeps .blank _ (parseSubjectDn_ok_iff.mpr ⟨formed, rfl⟩)).2
    · obtain ⟨element, bad⟩ := not_forall.mp formed
      exact .inr ⟨element, Classical.not_imp.mp bad⟩
  · rintro (once | ⟨element, inside, bad⟩) subject subject' accepted
    · exact ⟨losesNothing_of_namedOnce accepted once, once⟩
    · exact absurd ((parseSubjectDn_ok_iff.mp accepted).1 element inside) bad

end Elements

/-- Of two units the first is lost, and so is a CN before a commonName. -/
theorem first_value_lost :
    (∃ subject', parseSubjectDn exampleIssue.toCsrCrypto (some (ascii "OU=a,OU=b")) .blank = .ok subject' ∧
      subject' .unit = ascii "b" ∧
      ¬LosesNothing exampleIssue.toCsrCrypto (ascii "OU=a,OU=b") .blank subject') ∧
    ∃ subject', parseSubjectDn exampleIssue.toCsrCrypto (some (ascii "CN=a,commonName=b")) .blank =
        .ok subject' ∧
      subject' .commonName = ascii "b" ∧
      ¬LosesNothing exampleIssue.toCsrCrypto (ascii "CN=a,commonName=b") .blank subject' := by
  refine ⟨⟨_, rfl, rfl, ?_⟩, _, rfl, rfl, ?_⟩
  · rintro ⟨present, -⟩
    obtain ⟨field, named, holds⟩ := present (ascii "OU=a") (by decide +kernel)
    cases named
    revert holds
    decide +kernel
  · rintro ⟨present, -⟩
    obtain ⟨field, named, holds⟩ := present (ascii "CN=a") (by decide +kernel)
    cases named
    revert holds
    decide +kernel

end WolfCert
