import WolfCert.CLib.Preference
import WolfCert.Scep.RepSigner
import WolfCert.Scep.SelectRa

/-!
# The choice of a recipient, by its documented order

Which certificates of a bundle `scep.h` calls the best, said of the set of them, and that the passes of
`wolfcert_scep_select_ra_cert` find these.
-/

namespace WolfCert.Scep

open WolfCert.CLib

/-! ## The documented order -/

namespace RaFields

def Enciphers (f : RaFields) : Prop := ∃ usage, f.keyUsage = some usage ∧ usage.keyEncipher = true

def Signs (f : RaFields) : Prop := ∃ usage, f.keyUsage = some usage ∧ usage.digitalSig = true

/-- Data encipherment and no key encipherment. -/
def EnciphersData (f : RaFields) : Prop :=
  ∃ usage, f.keyUsage = some usage ∧ usage.keyEncipher = false ∧ usage.dataEncipher = true

def Subordinate (f : RaFields) : Prop := f.subjectHash ≠ f.issuerHash

end RaFields

/-- The RSA certificates of a bundle that are no CA. -/
def leaves (certs : Set RaFields) : Set RaFields := {f | f ∈ certs ∧ f.isRsa = true ∧ f.isCa = false}

/-- The RSA CAs that issued no other CA of the bundle. -/
def lowestCas (certs : Set RaFields) : Set RaFields :=
  {f | f ∈ certs ∧ f.isRsa = true ∧ f.isCa = true ∧
    ∀ other ∈ certs, other.isCa = true → other.issuerHash = f.subjectHash →
      other.subjectHash = f.subjectHash}

/-- The certificates that are best under the documented order. -/
def bestRecipients (certs : Set RaFields) : Set RaFields :=
  Foremost
    [{f | f ∈ leaves certs ∧ f.Enciphers ∧ ¬f.Signs},
      {f | f ∈ leaves certs ∧ f.Enciphers},
      {f | f ∈ leaves certs ∧ f.keyUsage = none},
      {f | f ∈ leaves certs ∧ f.EnciphersData},
      Prefer RaFields.Enciphers (Prefer RaFields.Subordinate (lowestCas certs))]

/-! ## Ranks -/

section Ranks

variable {f : RaFields}

theorem rank_le_four (f : RaFields) : candidateRank f ≤ 4 := by
  unfold candidateRank
  repeat' split
  all_goals decide

theorem rank_ca : candidateRank f = 0 ↔ f.isRsa = true ∧ f.isCa = true := by
  unfold candidateRank
  cases f.isRsa <;> cases f.isCa <;> simp
  repeat' split
  all_goals decide

/-- The four ranks of a certificate that is no CA. -/
theorem rank_classes (f : RaFields) :
    (candidateRank f = 4 ↔ (f.isRsa = true ∧ f.isCa = false) ∧ f.Enciphers ∧ ¬f.Signs) ∧
    (3 ≤ candidateRank f ↔ (f.isRsa = true ∧ f.isCa = false) ∧ f.Enciphers) ∧
    (candidateRank f = 2 ↔ (f.isRsa = true ∧ f.isCa = false) ∧ f.keyUsage = none) ∧
    (candidateRank f = 1 ↔ (f.isRsa = true ∧ f.isCa = false) ∧ f.EnciphersData) := by
  unfold candidateRank RaFields.Enciphers RaFields.Signs RaFields.EnciphersData
  cases f.isRsa with
  | false => simp
  | true =>
      cases f.isCa with
      | true => simp
      | false =>
          cases f.keyUsage with
          | none => simp
          | some usage =>
              obtain ⟨keyEncipher, digitalSig, dataEncipher⟩ := usage
              cases keyEncipher <;> cases digitalSig <;> cases dataEncipher <;> simp

end Ranks

/-- The order by classes is the one by rank. -/
theorem mem_bestRecipients {certs : Set RaFields} {f : RaFields} :
    f ∈ bestRecipients certs ↔ f ∈ certs ∧ 0 ≤ candidateRank f ∧
      (∀ g ∈ certs, candidateRank g ≤ candidateRank f) ∧
      (candidateRank f = 0 →
        f ∈ Prefer RaFields.Enciphers (Prefer RaFields.Subordinate (lowestCas certs))) := by
  have four : ∀ g, g ∈ {f | f ∈ leaves certs ∧ f.Enciphers ∧ ¬f.Signs} ↔
      g ∈ certs ∧ candidateRank g = 4 := fun g => by
    rw [(rank_classes g).1]
    exact and_assoc
  have three : ∀ g, g ∈ {f | f ∈ leaves certs ∧ f.Enciphers} ↔ g ∈ certs ∧ 3 ≤ candidateRank g :=
    fun g => by
      rw [(rank_classes g).2.1]
      exact and_assoc
  have two : ∀ g, g ∈ {f | f ∈ leaves certs ∧ f.keyUsage = none} ↔ g ∈ certs ∧ candidateRank g = 2 :=
    fun g => by
      rw [(rank_classes g).2.2.1]
      exact and_assoc
  have one : ∀ g, g ∈ {f | f ∈ leaves certs ∧ f.EnciphersData} ↔ g ∈ certs ∧ candidateRank g = 1 :=
    fun g => by
      rw [(rank_classes g).2.2.2]
      exact and_assoc
  have zero : ∀ g, g ∈ Prefer RaFields.Enciphers (Prefer RaFields.Subordinate (lowestCas certs)) →
      g ∈ certs ∧ candidateRank g = 0 := by
    intro g chosen
    obtain ⟨inside, rsa, ca, -⟩ := prefer_subset _ _ (prefer_subset _ _ chosen)
    exact ⟨inside, rank_ca.mpr ⟨rsa, ca⟩⟩
  simp only [bestRecipients, mem_foremost_cons, notMem_foremost_nil, and_false, or_false,
    Set.eq_empty_iff_forall_notMem, four, three, two, one, not_and]
  have small := rank_le_four
  constructor
  · rintro (⟨inside, rank⟩ | ⟨no4, ⟨inside, rank⟩ | ⟨no3, ⟨inside, rank⟩ | ⟨no2, ⟨inside, rank⟩ |
      ⟨no1, chosen⟩⟩⟩⟩)
    · exact ⟨inside, by omega, fun g _ => by have := small g; omega, by omega⟩
    · refine ⟨inside, by omega, fun g other => ?_, by omega⟩
      have := small g
      have := no4 g other
      omega
    · refine ⟨inside, by omega, fun g other => ?_, by omega⟩
      have := no3 g other
      omega
    · refine ⟨inside, by omega, fun g other => ?_, by omega⟩
      have := no3 g other
      have := no2 g other
      omega
    · obtain ⟨inside, rank⟩ := zero f chosen
      refine ⟨inside, by omega, fun g other => ?_, fun _ => chosen⟩
      have := no3 g other
      have := no2 g other
      have := no1 g other
      omega
  · rintro ⟨inside, some, best, ca⟩
    have own := small f
    by_cases h4 : candidateRank f = 4
    · exact .inl ⟨inside, h4⟩
    · refine .inr ⟨fun g other => by have := best g other; omega, ?_⟩
      by_cases h3 : candidateRank f = 3
      · exact .inl ⟨inside, by omega⟩
      · refine .inr ⟨fun g other => by have := best g other; omega, ?_⟩
        by_cases h2 : candidateRank f = 2
        · exact .inl ⟨inside, h2⟩
        · refine .inr ⟨fun g other => by have := best g other; omega, ?_⟩
          by_cases h1 : candidateRank f = 1
          · exact .inl ⟨inside, h1⟩
          · exact .inr ⟨fun g other => by have := best g other; omega, ca (by omega)⟩

/-! ## The passes over the candidates -/

section Passes

variable {all : List RaCandidate} {c : RaCandidate}

/-- A candidate that was parsed is self-issued exactly if its names are one. -/
def RaCandidate.Coherent (c : RaCandidate) : Prop :=
  c.parsed = true → c.selfIssued = decide (c.subject = c.issuer)

theorem bestRank_spec (all : List RaCandidate) :
    -1 ≤ bestRank all ∧ (∀ c ∈ all, c.rank ≤ bestRank all) ∧
      (bestRank all = -1 ∨ ∃ c ∈ all, c.rank = bestRank all) := by
  have run : ∀ (items : List RaCandidate) (start : Int),
      start ≤ items.foldl (fun best c => max best c.rank) start ∧
      (∀ c ∈ items, c.rank ≤ items.foldl (fun best c => max best c.rank) start) ∧
      (items.foldl (fun best c => max best c.rank) start = start ∨
        ∃ c ∈ items, c.rank = items.foldl (fun best c => max best c.rank) start) := by
    intro items
    induction items with
    | nil => intro start; simp
    | cons d rest ih =>
        intro start
        obtain ⟨above, least, attained⟩ := ih (max start d.rank)
        refine ⟨by rw [List.foldl_cons]; omega, ?_, ?_⟩
        · intro c inside
          rw [List.foldl_cons]
          rcases List.mem_cons.mp inside with rfl | later
          · omega
          · exact least c later
        · rw [List.foldl_cons]
          rcases attained with same | ⟨c, inside, top⟩
          · rw [same]
            rcases Int.le_total d.rank start with le | ge
            · exact .inl (Int.max_eq_left le)
            · exact .inr ⟨d, List.mem_cons_self, (Int.max_eq_right ge).symm⟩
          · exact .inr ⟨c, List.mem_cons_of_mem _ inside, top⟩
  exact run all (-1)

theorem rank_eq_bestRank (inside : c ∈ all) :
    0 ≤ bestRank all ∧ c.rank = bestRank all ↔ 0 ≤ c.rank ∧ ∀ d ∈ all, d.rank ≤ c.rank := by
  obtain ⟨floor, least, attained⟩ := bestRank_spec all
  constructor
  · rintro ⟨some, same⟩
    rw [same]
    exact ⟨some, least⟩
  · rintro ⟨some, top⟩
    have below := least c inside
    rcases attained with none | ⟨d, member, best⟩
    · omega
    · have := top d member
      omega

/-- That a candidate is not compared with itself makes no difference. -/
theorem issuedCa_iff {i : Nat} (coherent : c.Coherent) (here : all[i]? = some c) :
    raCandidateIssuedCa all i c = true ↔
      ∃ d ∈ all, d.parsed = true ∧ d.isCa = true ∧ d.selfIssued = false ∧ d.issuer = c.subject := by
  simp only [raCandidateIssuedCa, List.any_eq_true, Prod.exists, Bool.and_eq_true, ne_eq,
    Bool.not_eq_true', decide_eq_true_eq, List.mem_zipIdx_iff_getElem?]
  constructor
  · rintro ⟨d, j, there, ⟨⟨⟨-, parsed⟩, ca⟩, other⟩, issued⟩
    exact ⟨d, List.mem_of_getElem? there, parsed, ca, other, issued⟩
  · rintro ⟨d, inside, parsed, ca, other, issued⟩
    obtain ⟨j, there⟩ := List.getElem?_of_mem inside
    refine ⟨d, j, there, ⟨⟨⟨?_, parsed⟩, ca⟩, other⟩, issued⟩
    rintro rfl
    rw [here] at there
    cases there
    rw [coherent parsed, decide_eq_false_iff_not] at other
    exact other issued.symm

theorem mem_lowestCandidates (coherent : ∀ d ∈ all, d.Coherent) :
    c ∈ lowestCandidates all ↔ c ∈ all ∧ (0 ≤ c.rank ∧ ∀ d ∈ all, d.rank ≤ c.rank) ∧
      (c.rank = 0 → ¬∃ d ∈ all, d.parsed = true ∧ d.isCa = true ∧ d.selfIssued = false ∧
        d.issuer = c.subject) := by
  simp only [lowestCandidates, List.mem_map, List.mem_filter, Prod.exists, exists_and_right,
    exists_eq_right, List.mem_zipIdx_iff_getElem?, Bool.and_eq_true, Bool.or_eq_true,
    decide_eq_true_eq, Bool.not_eq_true']
  constructor
  · rintro ⟨i, here, ⟨some, same⟩, lowest⟩
    have inside := List.mem_of_getElem? here
    refine ⟨inside, (rank_eq_bestRank inside).mp ⟨some, same⟩, fun ca issued => ?_⟩
    rcases lowest with leaf | none
    · omega
    · rw [(issuedCa_iff (coherent c inside) here).mpr issued] at none
      cases none
  · rintro ⟨inside, top, lowest⟩
    obtain ⟨i, here⟩ := List.getElem?_of_mem inside
    have best := (rank_eq_bestRank inside).mpr top
    refine ⟨i, here, best, ?_⟩
    by_cases leaf : bestRank all > 0
    · exact .inl leaf
    · refine .inr (Bool.eq_false_iff.mpr fun issued => ?_)
      exact lowest (by omega) ((issuedCa_iff (coherent c inside) here).mp issued)

theorem mem_subordinateCandidates :
    c ∈ subordinateCandidates all ↔ c ∈ lowestCandidates all ∧ (bestRank all = 0 →
      c.selfIssued = false ∨ ∀ d ∈ lowestCandidates all, d.selfIssued = true) := by
  have rule := mem_filter_prefer (decide (bestRank all = 0)) (fun c => !c.selfIssued)
    (lowestCandidates all) c
  simpa [subordinateCandidates] using rule

theorem mem_finalCandidates :
    c ∈ finalCandidates all ↔ c ∈ subordinateCandidates all ∧ (bestRank all = 0 →
      c.keyEncipher = true ∨ ∀ d ∈ subordinateCandidates all, d.keyEncipher = false) := by
  have rule := mem_filter_prefer (decide (bestRank all = 0)) (fun c => c.keyEncipher)
    (subordinateCandidates all) c
  simpa [finalCandidates] using rule

/-- How a choice among the remaining candidates ends. -/
theorem pickCandidate_cases (all : List RaCandidate) :
    (finalCandidates all = [] ∧ pickCandidate all = .error .errUnsupported) ∨
    (∃ pick ∈ finalCandidates all, (∀ c ∈ finalCandidates all, c.key = pick.key) ∧
      pickCandidate all = .ok pick) ∨
    (∃ c ∈ finalCandidates all, ∃ d ∈ finalCandidates all, c.key ≠ d.key ∧
      pickCandidate all = .error .errProtocol) := by
  unfold pickCandidate
  cases final : finalCandidates all with
  | nil => exact .inl ⟨rfl, rfl⟩
  | cons pick others =>
      refine .inr ?_
      dsimp only
      split
      · rename_i same
        refine .inl ⟨pick, List.mem_cons_self, fun c inside => ?_, rfl⟩
        rcases List.mem_cons.mp inside with rfl | other
        · rfl
        · exact (of_decide_eq_true (List.all_eq_true.mp same c other)).symm
      · rename_i differ
        rw [List.all_eq_true, not_forall] at differ
        obtain ⟨d, differs⟩ := differ
        rw [Classical.not_imp, decide_eq_true_eq] at differs
        exact .inr ⟨pick, List.mem_cons_self, d, List.mem_cons_of_mem _ differs.1, differs.2, rfl⟩

end Passes

/-! ## Bundles -/

/-- What wolfSSL makes of each piece of a bundle, taken as given: the fields of a certificate and the
digest of its key, or for anything else an error that is not a lack of memory. -/
structure ParsesAs {σ : Type} (env : RaCrypto σ) (certOf : Bytes → Option RaFields)
    (digest : Bytes → Bytes) : Prop where
  certificate : ∀ der f w, certOf der = some f →
    ∃ w', candidateFields env der w = some (.ok (f, digest f.publicKey), w')
  other : ∀ der w, certOf der = none →
    ∃ e w', e ≠ .memoryE ∧ candidateFields env der w = some (.error e, w')
  granted : ∀ w size, (env.alloc w size).1 = true

/-- The certificates among the pieces of a bundle. -/
def certificates (certOf : Bytes → Option RaFields) (ders : List Bytes) : Set RaFields :=
  {f | ∃ der ∈ ders, certOf der = some f}

def candidateOf (certOf : Bytes → Option RaFields) (digest : Bytes → Bytes) (piece : Nat × Bytes) :
    RaCandidate :=
  match certOf piece.2 with
  | some f => parsedCandidate piece.1 piece.2 f (digest f.publicKey)
  | none => unparsedCandidate piece.1 piece.2

/-- The pieces and where each starts. -/
def places : Nat → List Bytes → List (Nat × Bytes)
  | _, [] => []
  | start, der :: rest => (start, der) :: places (start + der.length) rest

section Bundles

variable {σ : Type} {env : RaCrypto σ} {certOf : Bytes → Option RaFields} {digest : Bytes → Bytes}
  {ders : List Bytes}

theorem places_map_snd (start : Nat) (ders : List Bytes) : (places start ders).map Prod.snd = ders := by
  induction ders generalizing start with
  | nil => rfl
  | cons der rest ih => rw [places, List.map_cons, ih]

theorem places_length (start : Nat) (ders : List Bytes) : (places start ders).length = ders.length := by
  rw [← List.length_map (f := Prod.snd), places_map_snd]

/-- A piece stands in the bundle where it is said to. -/
theorem places_at {start offset : Nat} {der : Bytes} (placed : (offset, der) ∈ places start ders)
    (front : Bytes) (size : front.length = start) :
    ((front ++ ders.flatten).drop offset).take der.length = der := by
  induction ders generalizing start front with
  | nil => cases placed
  | cons first rest ih =>
      rw [places, List.mem_cons] at placed
      rw [List.flatten_cons]
      rcases placed with here | later
      · cases here
        rw [← size, List.drop_left, List.take_left]
      · have found := ih later (front ++ first) (by rw [List.length_append, size])
        rwa [List.append_assoc] at found

theorem bundlePieces_places (sequences : ∀ der ∈ ders, ∃ content, IsElement 0x30 content der)
    {fuel start : Nat} (enough : ders.length ≤ fuel) :
    bundlePieces fuel start ders.flatten = places start ders := by
  induction ders generalizing fuel start with
  | nil =>
      cases fuel with
      | zero => rfl
      | succ fuel => rfl
  | cons der rest ih =>
      obtain ⟨content, sequence⟩ := sequences der List.mem_cons_self
      have positive := sequence.length_pos
      rw [List.length_cons] at enough
      obtain ⟨fuel, rfl⟩ : ∃ f, fuel = f + 1 := ⟨fuel - 1, by omega⟩
      rw [bundlePieces, List.flatten_cons, derSeqLen_sequence sequence,
        if_neg (by omega), List.take_left, List.drop_left,
        ih (fun d inside => sequences d (List.mem_cons_of_mem _ inside)) (by omega)]
      rfl

theorem flatten_long (sequences : ∀ der ∈ ders, ∃ content, IsElement 0x30 content der) :
    ders.length ≤ ders.flatten.length := by
  induction ders with
  | nil => exact Nat.le_refl _
  | cons der rest ih =>
      obtain ⟨content, sequence⟩ := sequences der List.mem_cons_self
      have positive := sequence.length_pos
      have tail := ih fun d inside => sequences d (List.mem_cons_of_mem _ inside)
      rw [List.flatten_cons, List.length_append, List.length_cons]
      omega

theorem ParsesAs.raCandidateParse (given : ParsesAs env certOf digest) (piece : Nat × Bytes) (w : σ) :
    ∃ w', Scep.raCandidateParse env piece.1 piece.2 w = some (.ok (candidateOf certOf digest piece), w') := by
  rw [Scep.raCandidateParse, Prog.bind_of_ok (WolfCrypt.allocate_granted given.granted 1 w)]
  generalize (env.alloc w 1).2 = v
  unfold candidateOf
  cases parsed : certOf piece.2 with
  | none =>
      obtain ⟨e, u, known, failed⟩ := given.other piece.2 v parsed
      refine ⟨u, ?_⟩
      rw [Prog.bind_of_ok (Prog.attempt_ok_iff.mpr failed)]
      cases e <;> first
        | exact absurd rfl known
        | rfl
  | some f =>
      obtain ⟨u, found⟩ := given.certificate piece.2 f v parsed
      refine ⟨u, ?_⟩
      rw [Prog.bind_of_ok (Prog.attempt_ok_iff.mpr found)]
      rfl

theorem ParsesAs.parseCandidates (given : ParsesAs env certOf digest) (pieces : List (Nat × Bytes)) (w : σ) :
    ∃ w', Scep.parseCandidates env pieces w = some (.ok (pieces.map (candidateOf certOf digest)), w') := by
  induction pieces generalizing w with
  | nil => exact ⟨w, rfl⟩
  | cons piece rest ih =>
      obtain ⟨v, parsed⟩ := given.raCandidateParse piece w
      obtain ⟨u, others⟩ := ih v
      refine ⟨u, ?_⟩
      rw [Scep.parseCandidates, Prog.bind_of_ok parsed, Prog.bind_of_ok others]
      rfl

/-- The candidate stands for a certificate with these fields. -/
def StandsFor (certOf : Bytes → Option RaFields) (digest : Bytes → Bytes) (pieces : List (Nat × Bytes))
    (c : RaCandidate) (f : RaFields) : Prop :=
  ∃ piece ∈ pieces, certOf piece.2 = some f ∧ c = parsedCandidate piece.1 piece.2 f (digest f.publicKey)

variable {pieces : List (Nat × Bytes)} {c : RaCandidate} {f : RaFields}

theorem standsFor_or_unparsed (inside : c ∈ pieces.map (candidateOf certOf digest)) :
    (∃ f, StandsFor certOf digest pieces c f) ∨ (c.parsed = false ∧ c.rank = -1) := by
  obtain ⟨piece, placed, rfl⟩ := List.mem_map.mp inside
  unfold candidateOf
  cases parsed : certOf piece.2 with
  | none => exact .inr ⟨rfl, rfl⟩
  | some f => exact .inl ⟨f, piece, placed, parsed, rfl⟩

theorem StandsFor.mem (stands : StandsFor certOf digest pieces c f) :
    c ∈ pieces.map (candidateOf certOf digest) := by
  obtain ⟨piece, placed, parsed, rfl⟩ := stands
  refine List.mem_map.mpr ⟨piece, placed, ?_⟩
  rw [candidateOf, parsed]

theorem StandsFor.certificate (stands : StandsFor certOf digest pieces c f) :
    f ∈ certificates certOf (pieces.map Prod.snd) := by
  obtain ⟨piece, placed, parsed, -⟩ := stands
  exact ⟨piece.2, List.mem_map_of_mem placed, parsed⟩

theorem exists_standsFor (certOf : Bytes → Option RaFields) (digest : Bytes → Bytes)
    (inside : f ∈ certificates certOf (pieces.map Prod.snd)) :
    ∃ c, StandsFor certOf digest pieces c f := by
  obtain ⟨der, placed, parsed⟩ := inside
  obtain ⟨piece, member, rfl⟩ := List.mem_map.mp placed
  exact ⟨_, piece, member, parsed, rfl⟩

/-- A candidate has what the choice looks at from its certificate. -/
theorem StandsFor.reads (stands : StandsFor certOf digest pieces c f) :
    c.rank = candidateRank f ∧ c.parsed = true ∧ c.isCa = f.isCa ∧
      c.selfIssued = decide (f.subjectHash = f.issuerHash) ∧ (c.keyEncipher = true ↔ f.Enciphers) ∧
      c.subject = f.subjectHash ∧ c.issuer = f.issuerHash ∧ c.key = digest f.publicKey := by
  obtain ⟨piece, -, -, rfl⟩ := stands
  refine ⟨rfl, rfl, rfl, rfl, ?_, rfl, rfl, rfl⟩
  unfold parsedCandidate RaFields.Enciphers
  cases f.keyUsage with
  | none => simp
  | some usage => simp

theorem candidates_coherent : ∀ d ∈ pieces.map (candidateOf certOf digest), d.Coherent := by
  intro d inside parsed
  rcases standsFor_or_unparsed inside with ⟨f, stands⟩ | ⟨unparsed, -⟩
  · obtain ⟨-, -, -, self, -, subject, issuer, -⟩ := stands.reads
    rw [self, subject, issuer]
  · rw [unparsed] at parsed
    cases parsed

theorem StandsFor.top_iff (stands : StandsFor certOf digest pieces c f) :
    (0 ≤ c.rank ∧ ∀ d ∈ pieces.map (candidateOf certOf digest), d.rank ≤ c.rank) ↔
      0 ≤ candidateRank f ∧ ∀ g ∈ certificates certOf (pieces.map Prod.snd),
        candidateRank g ≤ candidateRank f := by
  rw [stands.reads.1]
  refine and_congr_right fun some => ⟨fun top g inside => ?_, fun top d inside => ?_⟩
  · obtain ⟨d, other⟩ := exists_standsFor certOf digest inside
    rw [← other.reads.1]
    exact top d other.mem
  · rcases standsFor_or_unparsed inside with ⟨g, other⟩ | ⟨-, none⟩
    · rw [other.reads.1]
      exact top g other.certificate
    · omega

/-- The first pass keeps the certificates of the best rank, of CAs the lowest. -/
theorem StandsFor.lowest_iff (stands : StandsFor certOf digest pieces c f) :
    c ∈ lowestCandidates (pieces.map (candidateOf certOf digest)) ↔
      (0 ≤ candidateRank f ∧ ∀ g ∈ certificates certOf (pieces.map Prod.snd),
        candidateRank g ≤ candidateRank f) ∧
      (candidateRank f = 0 → f ∈ lowestCas (certificates certOf (pieces.map Prod.snd))) := by
  rw [mem_lowestCandidates candidates_coherent, stands.top_iff, stands.reads.1]
  simp only [stands.mem, true_and]
  refine and_congr_right fun _ => forall_congr' fun ca => ?_
  obtain ⟨rsa, isCa⟩ := rank_ca.mp ca
  constructor
  · intro none
    refine ⟨stands.certificate, rsa, isCa, fun g inside otherCa issued => ?_⟩
    by_contra differs
    obtain ⟨d, other⟩ := exists_standsFor certOf digest inside
    obtain ⟨-, parsed, itsCa, self, -, -, issuer, -⟩ := other.reads
    refine none ⟨d, other.mem, parsed, itsCa.trans otherCa, ?_, ?_⟩
    · rw [self, decide_eq_false_iff_not, issued]
      exact differs
    · rw [issuer, issued, stands.reads.2.2.2.2.2.1]
  · rintro ⟨-, -, -, lowest⟩ ⟨d, inside, parsed, itsCa, self, issued⟩
    rcases standsFor_or_unparsed inside with ⟨g, other⟩ | ⟨unparsed, -⟩
    · obtain ⟨-, -, caOf, selfOf, -, -, issuer, -⟩ := other.reads
      rw [issuer, stands.reads.2.2.2.2.2.1] at issued
      rw [selfOf, decide_eq_false_iff_not, issued] at self
      exact self (lowest g other.certificate (caOf.symm.trans itsCa) issued)
    · rw [unparsed] at parsed
      cases parsed

/-- Whatever the passes keep stands for a certificate, and all of them have one rank. -/
theorem stands_of_lowest (kept : c ∈ lowestCandidates (pieces.map (candidateOf certOf digest))) :
    ∃ f, StandsFor certOf digest pieces c f ∧
      candidateRank f = bestRank (pieces.map (candidateOf certOf digest)) := by
  obtain ⟨inside, top, -⟩ := (mem_lowestCandidates candidates_coherent).mp kept
  rcases standsFor_or_unparsed inside with ⟨f, stands⟩ | ⟨-, none⟩
  · exact ⟨f, stands, stands.reads.1.symm.trans ((rank_eq_bestRank inside).mpr top).2⟩
  · have := top.1
    omega

theorem lowest_of_lowestCas (ca : bestRank (pieces.map (candidateOf certOf digest)) = 0)
    (lowest : f ∈ lowestCas (certificates certOf (pieces.map Prod.snd))) :
    ∃ c ∈ lowestCandidates (pieces.map (candidateOf certOf digest)),
      StandsFor certOf digest pieces c f := by
  obtain ⟨d, stands⟩ := exists_standsFor certOf digest lowest.1
  have rank : candidateRank f = 0 := rank_ca.mpr ⟨lowest.2.1, lowest.2.2.1⟩
  refine ⟨d, stands.lowest_iff.mpr ⟨stands.top_iff.mp ?_, fun _ => lowest⟩, stands⟩
  refine (rank_eq_bestRank stands.mem).mp ⟨by omega, ?_⟩
  rw [stands.reads.1, rank, ca]

/-- The second pass prefers the subordinate CAs. -/
theorem StandsFor.subordinate_iff (stands : StandsFor certOf digest pieces c f) :
    c ∈ subordinateCandidates (pieces.map (candidateOf certOf digest)) ↔
      c ∈ lowestCandidates (pieces.map (candidateOf certOf digest)) ∧
      (bestRank (pieces.map (candidateOf certOf digest)) = 0 →
        f ∈ Prefer RaFields.Subordinate (lowestCas (certificates certOf (pieces.map Prod.snd)))) := by
  rw [mem_subordinateCandidates]
  refine and_congr_right fun kept => forall_congr' fun ca => ?_
  have lowestOf : ∀ {d g}, d ∈ lowestCandidates (pieces.map (candidateOf certOf digest)) →
      StandsFor certOf digest pieces d g → g ∈ lowestCas (certificates certOf (pieces.map Prod.snd)) := by
    intro d g inside other
    refine (other.lowest_iff.mp inside).2 ?_
    rw [← other.reads.1]
    exact ((rank_eq_bestRank other.mem).mpr
      ((mem_lowestCandidates candidates_coherent).mp inside).2.1).2.trans ca
  rw [mem_prefer, stands.reads.2.2.2.1, decide_eq_false_iff_not]
  constructor
  · rintro (own | none)
    · exact ⟨lowestOf kept stands, .inl own⟩
    · refine ⟨lowestOf kept stands, .inr fun g lowest subordinate => ?_⟩
      obtain ⟨d, inside, other⟩ := lowest_of_lowestCas ca lowest
      have self := none d inside
      rw [other.reads.2.2.2.1, decide_eq_true_eq] at self
      exact subordinate self
  · rintro ⟨-, own | none⟩
    · exact .inl own
    · refine .inr fun d inside => ?_
      obtain ⟨g, other, -⟩ := stands_of_lowest inside
      rw [other.reads.2.2.2.1, decide_eq_true_eq]
      exact not_not.mp (none g (lowestOf inside other))

/-- The last pass prefers the CAs that may encipher keys; what it leaves are the best recipients. -/
theorem StandsFor.final_iff (stands : StandsFor certOf digest pieces c f) :
    c ∈ finalCandidates (pieces.map (candidateOf certOf digest)) ↔
      f ∈ bestRecipients (certificates certOf (pieces.map Prod.snd)) := by
  rw [mem_finalCandidates, mem_bestRecipients]
  constructor
  · rintro ⟨kept, preferred⟩
    obtain ⟨lowest, subordinate⟩ := stands.subordinate_iff.mp kept
    obtain ⟨top, -⟩ := stands.lowest_iff.mp lowest
    refine ⟨stands.certificate, top.1, top.2, fun rank => ?_⟩
    have ca : bestRank (pieces.map (candidateOf certOf digest)) = 0 := by
      rw [← rank, ← stands.reads.1]
      exact ((rank_eq_bestRank stands.mem).mpr (stands.top_iff.mpr top)).2.symm
    refine ⟨subordinate ca, ?_⟩
    rcases preferred ca with own | none
    · exact .inl (stands.reads.2.2.2.2.1.mp own)
    · refine .inr fun g inside enciphers => ?_
      obtain ⟨d, low, other⟩ := lowest_of_lowestCas ca inside.1
      have encipher := other.reads.2.2.2.2.1.mpr enciphers
      rw [none d (other.subordinate_iff.mpr ⟨low, fun _ => inside⟩)] at encipher
      cases encipher
  · rintro ⟨-, some, best, chosen⟩
    have top := (rank_eq_bestRank stands.mem).mpr (stands.top_iff.mpr ⟨some, best⟩)
    rw [stands.reads.1] at top
    have lowest : c ∈ lowestCandidates (pieces.map (candidateOf certOf digest)) :=
      stands.lowest_iff.mpr ⟨⟨some, best⟩, fun rank => (chosen rank).1.1⟩
    refine ⟨stands.subordinate_iff.mpr ⟨lowest, fun ca => (chosen (top.2.trans ca)).1⟩, fun ca => ?_⟩
    rcases (chosen (top.2.trans ca)).2 with own | none
    · exact .inl (stands.reads.2.2.2.2.1.mpr own)
    · refine .inr fun d inside => Bool.eq_false_iff.mpr fun encipher => ?_
      obtain ⟨g, other, -⟩ := stands_of_lowest (mem_subordinateCandidates.mp inside).1
      exact none g ((other.subordinate_iff.mp inside).2 ca) (other.reads.2.2.2.2.1.mp encipher)

theorem mem_final_iff : c ∈ finalCandidates (pieces.map (candidateOf certOf digest)) ↔
    ∃ f ∈ bestRecipients (certificates certOf (pieces.map Prod.snd)),
      StandsFor certOf digest pieces c f := by
  constructor
  · intro kept
    obtain ⟨f, stands, -⟩ := stands_of_lowest (mem_subordinateCandidates.mp (mem_finalCandidates.mp kept).1).1
    exact ⟨f, stands.final_iff.mp kept, stands⟩
  · rintro ⟨f, best, stands⟩
    exact stands.final_iff.mpr best

/-! ## The choice -/

/-- A bundle: at least one DER SEQUENCE, and no more than the limit, laid one after another. -/
structure IsBundle (env : RaCrypto σ) (ders : List Bytes) : Prop where
  filled : ders ≠ []
  limit : ders.length ≤ env.maxPkcs7Certs
  sequences : ∀ der ∈ ders, ∃ content, IsElement 0x30 content der

/-- The result the documented order asks for. -/
structure Chooses (certOf : Bytes → Option RaFields) (ders : List Bytes)
    (result : Except Rc (Nat × Bytes)) : Prop where
  chosen : (∃ picked, result = .ok picked) ↔
    (bestRecipients (certificates certOf ders)).Nonempty ∧
      ∀ f ∈ bestRecipients (certificates certOf ders), ∀ g ∈ bestRecipients (certificates certOf ders),
        f.publicKey = g.publicKey
  best : ∀ offset der, result = .ok (offset, der) →
    (ders.flatten.drop offset).take der.length = der ∧ der ∈ ders ∧
      ∃ f ∈ bestRecipients (certificates certOf ders), certOf der = some f
  ambiguous : result = .error .errProtocol ↔
    ∃ f ∈ bestRecipients (certificates certOf ders), ∃ g ∈ bestRecipients (certificates certOf ders),
      f.publicKey ≠ g.publicKey
  unsupported : result = .error .errUnsupported ↔ bestRecipients (certificates certOf ders) = ∅

/-- The same code, and on success a certificate for the same key. -/
def SameChoice (certOf : Bytes → Option RaFields) :
    Except Rc (Nat × Bytes) → Except Rc (Nat × Bytes) → Prop
  | .ok (_, der), .ok (_, der') =>
      ∃ f g, certOf der = some f ∧ certOf der' = some g ∧ f.publicKey = g.publicKey
  | .error rc, .error rc' => rc = rc'
  | _, _ => False

theorem IsBundle.cut (bundle : IsBundle env ders) :
    bundlePieces ders.flatten.length 0 ders.flatten = places 0 ders :=
  bundlePieces_places bundle.sequences (flatten_long bundle.sequences)

/-- Past its checks the selection is the choice among the candidates. -/
theorem selectRaCert_eq (given : ParsesAs env certOf digest) (bundle : IsBundle env ders) (w : σ) :
    ∃ w', selectRaCert env ders.flatten w =
      some ((pickCandidate ((places 0 ders).map (candidateOf certOf digest))).map
        fun pick => (pick.offset, pick.der), w') := by
  have long := flatten_long bundle.sequences
  have filled : ders.length ≠ 0 := fun zero => bundle.filled (List.length_eq_zero_iff.mp zero)
  have some : ders.flatten ≠ [] := List.ne_nil_of_length_pos (by omega)
  have many : places 0 ders ≠ [] := List.ne_nil_of_length_pos (by rw [places_length]; omega)
  obtain ⟨w', parsed⟩ := given.parseCandidates (places 0 ders)
    (env.alloc w (places 0 ders).length).2
  refine ⟨w', ?_⟩
  rw [selectRaCert, Prog.bind_of_ok (Prog.require_of some _ _), bundle.cut,
    Prog.bind_of_ok (Prog.require_of many _ _),
    Prog.bind_of_ok (Prog.require_of (by rw [places_length]; exact bundle.limit) _ _),
    Prog.bind_of_ok (WolfCrypt.allocate_granted given.granted _ _), Prog.bind_of_ok parsed]
  cases pickCandidate ((places 0 ders).map (candidateOf certOf digest)) <;> rfl

theorem pick_chooses (digest : Bytes → Bytes)
    (distinct : ∀ f ∈ certificates certOf ders, ∀ g ∈ certificates certOf ders,
      digest f.publicKey = digest g.publicKey → f.publicKey = g.publicKey) :
    Chooses certOf ders ((pickCandidate ((places 0 ders).map (candidateOf certOf digest))).map
      fun pick => (pick.offset, pick.der)) := by
  have kept : ∀ c, c ∈ finalCandidates ((places 0 ders).map (candidateOf certOf digest)) ↔
      ∃ f ∈ bestRecipients (certificates certOf ders), StandsFor certOf digest (places 0 ders) c f := by
    intro c
    rw [mem_final_iff, places_map_snd]
  have within : ∀ f ∈ bestRecipients (certificates certOf ders), f ∈ certificates certOf ders :=
    fun f best => (mem_bestRecipients.mp best).1
  have candidate : ∀ f ∈ bestRecipients (certificates certOf ders),
      ∃ c ∈ finalCandidates ((places 0 ders).map (candidateOf certOf digest)),
        StandsFor certOf digest (places 0 ders) c f := by
    intro f best
    have inside := within f best
    rw [← places_map_snd 0 ders] at inside
    obtain ⟨c, stands⟩ := exists_standsFor certOf digest inside
    exact ⟨c, (kept c).mpr ⟨f, best, stands⟩, stands⟩
  -- the three ends of a choice exclude one another, so each equivalence is read off all of them
  rcases pickCandidate_cases ((places 0 ders).map (candidateOf certOf digest)) with
    ⟨final, picked⟩ | ⟨pick, final, same, picked⟩ | ⟨c, finalC, d, finalD, differ, picked⟩
  · have empty : bestRecipients (certificates certOf ders) = ∅ := by
      refine Set.eq_empty_iff_forall_notMem.mpr fun f best => ?_
      obtain ⟨c, inside, -⟩ := candidate f best
      rw [final] at inside
      cases inside
    rw [picked]
    refine ⟨?_, ?_, ?_, ?_⟩
    · simp [empty, Except.map]
    · intro offset der picked
      cases picked
    · simp [empty, Except.map]
    · simp [empty, Except.map]
  · obtain ⟨f, best, stands⟩ := (kept pick).mp final
    have one : ∀ g ∈ bestRecipients (certificates certOf ders), g.publicKey = f.publicKey := by
      intro g other
      obtain ⟨d, inside, standing⟩ := candidate g other
      have key := same d inside
      rw [standing.reads.2.2.2.2.2.2.2, stands.reads.2.2.2.2.2.2.2] at key
      exact distinct g (within g other) f (within f best) key
    rw [picked]
    refine ⟨⟨fun _ => ⟨⟨f, best⟩, fun g hg h hh => (one g hg).trans (one h hh).symm⟩,
      fun _ => ⟨_, rfl⟩⟩, ?_, ?_, ?_⟩
    · intro offset der result
      obtain ⟨⟨start, piece⟩, placed, parsed, rfl⟩ := stands
      cases result
      refine ⟨places_at placed [] rfl, ?_, f, best, parsed⟩
      have inside := List.mem_map_of_mem (f := Prod.snd) placed
      rwa [places_map_snd] at inside
    · refine ⟨fun failed => (by cases failed), ?_⟩
      rintro ⟨g, hg, h, hh, differ⟩
      exact absurd ((one g hg).trans (one h hh).symm) differ
    · refine ⟨fun failed => (by cases failed), fun empty => ?_⟩
      rw [empty] at best
      exact best.elim
  · obtain ⟨f, bestF, standsF⟩ := (kept c).mp finalC
    obtain ⟨g, bestG, standsG⟩ := (kept d).mp finalD
    have keys : f.publicKey ≠ g.publicKey := by
      intro same
      rw [standsF.reads.2.2.2.2.2.2.2, standsG.reads.2.2.2.2.2.2.2, same] at differ
      exact differ rfl
    rw [picked]
    refine ⟨⟨fun ⟨_, failed⟩ => (by cases failed), fun ⟨_, same⟩ => absurd (same f bestF g bestG) keys⟩,
      fun _ _ failed => (by cases failed), ⟨fun _ => ⟨f, bestF, g, bestG, keys⟩, fun _ => rfl⟩,
      ⟨fun failed => (by cases failed), fun empty => ?_⟩⟩
    rw [empty] at bestF
    exact bestF.elim

/-- Two choices from the same certificates are the same. -/
theorem Chooses.same {other : List Bytes} {result result' : Except Rc (Nat × Bytes)}
    (one : Chooses certOf ders result) (two : Chooses certOf other result')
    (certs : certificates certOf other = certificates certOf ders)
    (codes : ∀ rc, result = .error rc → rc = .errProtocol ∨ rc = .errUnsupported)
    (codes' : ∀ rc, result' = .error rc → rc = .errProtocol ∨ rc = .errUnsupported) :
    SameChoice certOf result result' := by
  obtain ⟨chosen, best, ambiguous, unsupported⟩ := one
  obtain ⟨chosen', best', ambiguous', unsupported'⟩ := two
  rw [certs] at chosen' best' ambiguous' unsupported'
  cases result with
  | ok picked =>
      have condition := chosen.mp ⟨picked, rfl⟩
      obtain ⟨picked', rfl⟩ := chosen'.mpr condition
      obtain ⟨offset, der⟩ := picked
      obtain ⟨offset', der'⟩ := picked'
      obtain ⟨-, -, f, bestF, parsed⟩ := best offset der rfl
      obtain ⟨-, -, g, bestG, parsed'⟩ := best' offset' der' rfl
      exact ⟨f, g, parsed, parsed', condition.2 f bestF g bestG⟩
  | error rc =>
      rcases codes rc rfl with rfl | rfl
      · rw [ambiguous'.mpr (ambiguous.mp rfl)]
        rfl
      · rw [unsupported'.mpr (unsupported.mp rfl)]
        rfl

theorem pick_codes {rc : Rc} {all : List RaCandidate}
    (failed : (pickCandidate all).map (fun pick => (pick.offset, pick.der)) = .error rc) :
    rc = .errProtocol ∨ rc = .errUnsupported := by
  rcases pickCandidate_cases all with ⟨-, picked⟩ | ⟨_, -, -, picked⟩ | ⟨_, -, _, -, -, picked⟩ <;>
    rw [picked] at failed <;> cases failed <;> simp

/-- The selection returns what the documented order asks for, and the same for every bundle with the
same certificates, in whatever order, however often and among whatever else they stand. -/
theorem select_ra_cert_by_order (given : ParsesAs env certOf digest) (bundle : IsBundle env ders)
    (distinct : ∀ f ∈ certificates certOf ders, ∀ g ∈ certificates certOf ders,
      digest f.publicKey = digest g.publicKey → f.publicKey = g.publicKey) :
    ∃ result, (∀ w, ∃ w', selectRaCert env ders.flatten w = some (result, w')) ∧
      Chooses certOf ders result ∧
      ∀ other, IsBundle env other → (∀ der, certOf der ≠ none → (der ∈ other ↔ der ∈ ders)) →
        ∃ result', (∀ w, ∃ w', selectRaCert env other.flatten w = some (result', w')) ∧
          Chooses certOf other result' ∧ SameChoice certOf result result' := by
  refine ⟨_, selectRaCert_eq given bundle, pick_chooses digest distinct, fun other bundle' same => ?_⟩
  have certs : certificates certOf other = certificates certOf ders := by
    ext f
    constructor
    · rintro ⟨der, inside, parsed⟩
      exact ⟨der, (same der (by simp [parsed])).mp inside, parsed⟩
    · rintro ⟨der, inside, parsed⟩
      exact ⟨der, (same der (by simp [parsed])).mpr inside, parsed⟩
  have apart := distinct
  rw [← certs] at apart
  have chooses := pick_chooses digest apart
  exact ⟨_, selectRaCert_eq given bundle', chooses,
    (pick_chooses digest distinct).same chooses certs (fun _ => pick_codes) fun _ => pick_codes⟩

end Bundles

/-! A bundle with a certificate and a SEQUENCE that is none. -/

def exampleLeaf : Bytes := [0x30, 1, 1]

def exampleJunk : Bytes := [0x30, 1, 2]

def exampleCertOf (der : Bytes) : Option RaFields :=
  if der = exampleLeaf then some ⟨der, [1], [2], false, true, none⟩ else none

def exampleRaCrypto : RaCrypto Http.Wire where
  toWolfCrypt := { exampleCrypt ⟨[], [], [], []⟩ with alloc := fun w _ => (true, w) }
  parseCandidate der w := ((exampleCertOf der).elim (.error .other) .ok, w)
  shaHash input w := (.ok input, w)
  sha512Hash input w := (.ok input, w)
  hasSha := true
  maxPkcs7Certs := 15

theorem exampleRaCrypto_parses : ParsesAs exampleRaCrypto exampleCertOf id where
  certificate der f w parsed := ⟨w, by simp [candidateFields, exampleRaCrypto, exampleCrypt, parsed]⟩
  other der w parsed := ⟨.other, w, by decide, by
    rw [candidateFields, Prog.bind_of_error (e := .other) (v := w)]
    simp [Prog.callMap, exampleRaCrypto, parsed]⟩
  granted _ _ := rfl

theorem select_ra_cert_skips :
    IsBundle exampleRaCrypto [exampleJunk, exampleLeaf] ∧
      Chooses exampleCertOf [exampleJunk, exampleLeaf] (.ok (3, exampleLeaf)) ∧
      SameChoice exampleCertOf (.ok (3, exampleLeaf)) (.ok (0, exampleLeaf)) := by
  have sequences : ∀ der ∈ [exampleJunk, exampleLeaf], ∃ content, IsElement 0x30 content der := by
    simp only [List.mem_cons, List.not_mem_nil, or_false, forall_eq_or_imp, forall_eq]
    exact ⟨⟨[2], [1], .short (by decide), rfl⟩, ⟨[1], [1], .short (by decide), rfl⟩⟩
  have bundle : IsBundle exampleRaCrypto [exampleJunk, exampleLeaf] := ⟨by simp, by decide, sequences⟩
  have alone : IsBundle exampleRaCrypto [exampleLeaf] :=
    ⟨by simp, by decide, fun der inside => sequences der (List.mem_cons_of_mem _ inside)⟩
  obtain ⟨result, ran, chooses, others⟩ := select_ra_cert_by_order exampleRaCrypto_parses bundle
    fun _ _ _ _ same => same
  obtain ⟨result', ran', -, same⟩ := others [exampleLeaf] alone fun der parsed => by
    have own : der = exampleLeaf := by
      by_contra other
      exact parsed (if_neg other)
    simp [own]
  obtain ⟨_, here⟩ := ran ⟨[], [], false, false⟩
  obtain ⟨_, there⟩ := ran' ⟨[], [], false, false⟩
  have picked : selectRaCert exampleRaCrypto [exampleJunk, exampleLeaf].flatten ⟨[], [], false, false⟩ =
      some (.ok (3, exampleLeaf), ⟨[], [], false, false⟩) := by decide +kernel
  have picked' : selectRaCert exampleRaCrypto [exampleLeaf].flatten ⟨[], [], false, false⟩ =
      some (.ok (0, exampleLeaf), ⟨[], [], false, false⟩) := by decide +kernel
  rw [picked] at here
  rw [picked'] at there
  cases here
  cases there
  exact ⟨bundle, chooses, same⟩

/-- No SEQUENCE at all is refused as a bad argument. -/
theorem select_ra_cert_empty :
    ∃ result w, selectRaCert exampleRaCrypto ([] : List Bytes).flatten ⟨[], [], false, false⟩ =
      some (result, w) ∧ result = .error .errBadArg ∧ ¬Chooses exampleCertOf [] result := by
  refine ⟨.error .errBadArg, ⟨[], [], false, false⟩, rfl, rfl, fun chooses => ?_⟩
  have none : bestRecipients (certificates exampleCertOf []) = ∅ := by
    refine Set.eq_empty_iff_forall_notMem.mpr fun f best => ?_
    obtain ⟨der, inside, -⟩ := (mem_bestRecipients.mp best).1
    cases inside
  cases chooses.unsupported.mpr none

end WolfCert.Scep
