import Mathlib.Data.List.TakeWhile
import WolfCert.Http.Session

/-!
# Parts of a URL

What `wolfcert_http_url_parse` accepts, and what it makes of an accepted URL with a query behind it.
-/

namespace WolfCert.Http

open WolfCert.CLib

variable {σ : Type} {env : Env σ}

/-! ## Searches and numbers in a longer text -/

theorem strstr_eq_none_of_not_mem {needle text : Bytes} {c : UInt8} (inside : c ∈ needle)
    (absent : c ∉ text) : strstr needle text = none := by
  cases found : strstr needle text with
  | none => rfl
  | some split =>
      obtain ⟨before, after⟩ := split
      rw [strstr_eq_append found] at absent
      simp [inside] at absent

/-- A needle that is in neither text is not across their border if the second one begins with a byte
of its own. -/
theorem strstr_append_eq_none {needle text tail : Bytes} (absent : strstr needle text = none)
    (absent' : strstr needle tail = none) (border : ∀ c ∈ tail.head?, c ∉ needle) :
    strstr needle (text ++ tail) = none := by
  induction text with
  | nil => exact absent'
  | cons b text ih =>
      simp only [strstr] at absent
      split at absent
      · cases absent
      · rename_i here
        have later := ih (by simpa using absent)
        have still : ¬needle.isPrefixOf (b :: (text ++ tail)) = true := by
          simp only [List.isPrefixOf_iff_prefix] at here ⊢
          intro front
          rcases Nat.lt_or_ge (b :: text).length needle.length with long | short
          · have shorter : b :: text <+: needle :=
              List.prefix_of_prefix_length_le (List.prefix_append (b :: text) tail) front (Nat.le_of_lt long)
            obtain ⟨more, rfl⟩ := shorter
            cases more with
            | nil => simp at long
            | cons c more =>
                obtain ⟨rest, whole⟩ := front
                rw [← List.cons_append, List.append_assoc, List.append_cancel_left_eq] at whole
                exact border c (by rw [← whole]; rfl) (by simp)
          · exact here (List.prefix_of_prefix_length_le front (List.prefix_append (b :: text) tail) short)
        rw [List.cons_append, strstr, if_neg still, later]
        rfl

theorem takeWhile_dropWhile_append {p : UInt8 → Bool} {text tail : Bytes}
    (stops : (∃ c ∈ text, p c = false) ∨ ∀ c ∈ tail.head?, p c = false) :
    (text ++ tail).takeWhile p = text.takeWhile p ∧
      (text ++ tail).dropWhile p = text.dropWhile p ++ tail := by
  induction text with
  | nil =>
      rcases stops with ⟨c, inside, -⟩ | border
      · cases inside
      · cases tail with
        | nil => exact ⟨rfl, rfl⟩
        | cons c tail => simp [border c rfl]
  | cons b text ih =>
      by_cases goesOn : p b = true
      · have later : (∃ c ∈ text, p c = false) ∨ ∀ c ∈ tail.head?, p c = false := by
          refine stops.imp_left ?_
          rintro ⟨c, inside, other⟩
          rcases List.mem_cons.mp inside with rfl | inside
          · rw [goesOn] at other
            cases other
          · exact ⟨c, inside, other⟩
        obtain ⟨taken, dropped⟩ := ih later
        simp only [List.cons_append, List.takeWhile_cons, List.dropWhile_cons, goesOn, if_true, taken,
          dropped, and_self]
      · simp [goesOn]

/-- What `strtol` read is white space, a sign and digits. -/
theorem strtol_used {text rest : Bytes} {p : Int} (read : strtol text = (p, rest)) :
    ∃ used, text = used ++ rest ∧
      ∀ c ∈ used, isSpace c = true ∨ c = 45 ∨ c = 43 ∨ isDigit c = true := by
  obtain ⟨number, sign, split, signs⟩ : ∃ number sign, text.dropWhile isSpace = sign ++ number ∧
      (∀ c ∈ sign, c = 45 ∨ c = 43) ∧
      (if charAt (text.dropWhile isSpace) == 45 || charAt (text.dropWhile isSpace) == 43 then
        (text.dropWhile isSpace).tail else text.dropWhile isSpace) = number := by
    split
    · rename_i signed
      cases shape : text.dropWhile isSpace with
      | nil => exact ⟨[], [], by simp⟩
      | cons c after =>
          refine ⟨after, [c], rfl, ?_, rfl⟩
          simpa [shape, charAt] using signed
    · exact ⟨_, [], rfl, by simp, rfl⟩
  obtain ⟨signs, unsigned⟩ := signs
  have spaces : text = text.takeWhile isSpace ++ (sign ++ number) := by
    rw [← split, List.takeWhile_append_dropWhile]
  have digits : number = number.takeWhile isDigit ++ number.dropWhile isDigit := by
    rw [List.takeWhile_append_dropWhile]
  simp only [strtol, unsigned] at read
  by_cases none : number.takeWhile isDigit = []
  · rw [if_pos none] at read
    cases read
    exact ⟨[], rfl, by simp⟩
  · rw [if_neg none] at read
    have end' : rest = number.dropWhile isDigit := by
      split at read <;> cases read <;> rfl
    refine ⟨text.takeWhile isSpace ++ sign ++ number.takeWhile isDigit, ?_, ?_⟩
    · rw [end', List.append_assoc, List.append_assoc, ← digits]
      exact spaces
    · intro c inside
      rcases List.mem_append.mp inside with front | digit
      · rcases List.mem_append.mp front with space | signed
        · exact .inl (List.mem_takeWhile_imp space)
        · rcases signs c signed with minus | plus
          · exact .inr (.inl minus)
          · exact .inr (.inr (.inl plus))
      · exact .inr (.inr (.inr (List.mem_takeWhile_imp digit)))

theorem strtol_append {text rest tail : Bytes} {p : Int} (read : strtol text = (p, rest))
    (positive : 0 < p) (border : ∀ c ∈ tail.head?, isDigit c = false) :
    strtol (text ++ tail) = (p, rest ++ tail) := by
  obtain ⟨b, after, unspaced⟩ : ∃ b after, text.dropWhile isSpace = b :: after := by
    cases shape : text.dropWhile isSpace with
    | nil =>
        simp only [strtol, shape, List.tail_nil, ite_self, List.takeWhile_nil, if_true] at read
        cases read
        omega
    | cons b after => exact ⟨b, after, rfl⟩
  have begun : ∃ c ∈ text, isSpace c = false := by
    refine ⟨b, (List.dropWhile_suffix isSpace).subset (by rw [unspaced]; simp), ?_⟩
    have first := List.head?_dropWhile_not isSpace text
    rw [unspaced] at first
    simpa using first
  have dropped : (text ++ tail).dropWhile isSpace = b :: (after ++ tail) := by
    rw [(takeWhile_dropWhile_append (.inl begun)).2, unspaced]
    rfl
  obtain ⟨number, read', unsigned⟩ : ∃ number,
      (if b == 45 || b == 43 then after else b :: after) = number ∧
      (if b == 45 || b == 43 then after ++ tail else b :: (after ++ tail)) = number ++ tail := by
    split
    · exact ⟨_, rfl, rfl⟩
    · exact ⟨_, rfl, rfl⟩
  obtain ⟨taken, left⟩ : (number ++ tail).takeWhile isDigit = number.takeWhile isDigit ∧
      (number ++ tail).dropWhile isDigit = number.dropWhile isDigit ++ tail :=
    takeWhile_dropWhile_append (.inr border)
  simp only [strtol, unspaced, dropped, charAt, List.headD_cons, List.tail_cons, read', unsigned, taken,
    left] at read ⊢
  by_cases none : number.takeWhile isDigit = []
  · rw [if_pos none] at read
    cases read
    omega
  · rw [if_neg none] at read ⊢
    by_cases minus : (b == 45) = true
    · rw [if_pos minus] at read ⊢
      cases read
      rfl
    · rw [if_neg minus] at read ⊢
      cases read
      rfl

theorem ciLower_eq_zero {c : UInt8} (zero : ciLower c = 0) : c = 0 := by
  unfold ciLower at zero
  split at zero
  · rename_i upper
    simp only [UInt8.le_iff_toNat_le, ← UInt8.toNat_inj, UInt8.toNat_add, UInt8.reduceToNat] at upper zero
    omega
  · exact zero

theorem ciCmp_mem {a b : Bytes} (same : ciCmp a b = 0) (text : 0 ∉ a) {c : UInt8} (inside : c ∈ a) :
    ∃ d ∈ b, ciLower c = ciLower d := by
  have difference {x y : UInt8} (zero : (x.toNat : Int) - y.toNat = 0) : x = y :=
    UInt8.toNat_inj.mp (by omega)
  induction a generalizing b with
  | nil => cases inside
  | cons x a ih =>
      cases b with
      | nil =>
          have nul : x = 0 := ciLower_eq_zero (difference same)
          exact absurd (by simp [nul]) text
      | cons y b =>
          simp only [ciCmp] at same
          split at same
          · rename_i here
            rcases List.mem_cons.mp inside with rfl | later
            · exact ⟨y, by simp, here⟩
            · obtain ⟨d, found, lower⟩ := ih same (fun nul => text (List.mem_cons_of_mem _ nul)) later
              exact ⟨d, List.mem_cons_of_mem _ found, lower⟩
          · rename_i other
            exact absurd (difference same) other

/-! ## Accepted URLs -/

/-- The cuts of an accepted URL: before its host, behind its host and behind its port. -/
structure UrlParts (url : Bytes) (u : Url) (hostStart hostEnd target : Bytes) (port : Int) : Prop where
  scheme : strstr (ascii "://") url = none ∧ hostStart = url ∧ u.scheme = ascii "https" ∧ port = 443 ∧
      u.tls = true ∨
    strstr (ascii "://") url = some (u.scheme, hostStart) ∧ u.scheme.length ≤ 16 ∧
      schemeDefaults u.scheme = some (port, u.tls)
  host : splitHost hostStart = some (u.host, hostEnd)
  hostLimit : u.host.length ≤ maxHostLen
  port : splitPort port hostEnd = some (u.port, target)
  path : u.path = targetPath target
  pathLimit : u.path.length ≤ maxPathLen

theorem withAlloc_ok {α : Type} {w w' : σ} {size : Nat} {failed result : α} {next : σ → α × σ}
    (other : result ≠ failed) (run : env.withAlloc w size failed next = (result, w')) :
    ∃ v, next v = (result, w') := by
  unfold Env.withAlloc at run
  split at run
  · exact ⟨_, run⟩
  · cases run
    exact absurd rfl other

theorem withAlloc_granted {α : Type} (granted : ∀ w n, (env.alloc w n).1 = true) (w : σ) (size : Nat)
    (failed : α) (next : σ → α × σ) :
    env.withAlloc w size failed next = next (env.alloc w size).2 := by
  have here := granted w size
  unfold Env.withAlloc
  split
  · rename_i given
    rw [given]
  · rename_i refused
    rw [refused] at here
    cases here

theorem urlParseRest_ok {w w' : σ} {scheme hostStart : Bytes} {port : Int} {tls : Bool} {u : Url}
    (run : urlParseRest env w scheme port tls hostStart = (.ok u, w')) :
    ∃ hostEnd target, splitHost hostStart = some (u.host, hostEnd) ∧ u.host.length ≤ maxHostLen ∧
      splitPort port hostEnd = some (u.port, target) ∧ u.path = targetPath target ∧
      u.path.length ≤ maxPathLen ∧ u.scheme = scheme ∧ u.tls = tls := by
  cases cut : splitHost hostStart with
  | none => simp [urlParseRest, cut] at run
  | some found =>
      obtain ⟨host, hostEnd⟩ := found
      simp only [urlParseRest, cut] at run
      split at run
      · cases run
      · rename_i hostLimit
        rw [not_lt] at hostLimit
        obtain ⟨v, run⟩ := withAlloc_ok (by simp) run
        cases ported : splitPort port hostEnd with
        | none => simp [ported] at run
        | some found =>
            obtain ⟨p, target⟩ := found
            simp only [ported] at run
            split at run
            · cases run
            · rename_i pathLimit
              rw [not_lt] at pathLimit
              obtain ⟨v, run⟩ := withAlloc_ok (by simp) run
              cases run
              exact ⟨hostEnd, target, rfl, hostLimit, ported, rfl, pathLimit, rfl, rfl⟩

theorem httpUrlParse_parts {w w' : σ} {url : Bytes} {u : Url}
    (run : httpUrlParse env w url = (.ok u, w')) :
    ∃ hostStart hostEnd target port, UrlParts url u hostStart hostEnd target port := by
  cases cut : strstr (ascii "://") url with
  | none =>
      simp only [httpUrlParse, cut] at run
      obtain ⟨v, run⟩ := withAlloc_ok (by simp) run
      obtain ⟨hostEnd, target, host, hostLimit, port, path, pathLimit, scheme, tls⟩ := urlParseRest_ok run
      exact ⟨url, hostEnd, target, 443, .inl ⟨cut, rfl, scheme, rfl, tls⟩, host, hostLimit, port, path,
        pathLimit⟩
  | some found =>
      obtain ⟨scheme, hostStart⟩ := found
      simp only [httpUrlParse, cut] at run
      split at run
      · cases run
      · rename_i schemeLimit
        obtain ⟨v, run⟩ := withAlloc_ok (by simp) run
        cases defaults : schemeDefaults scheme with
        | none => simp [defaults] at run
        | some found =>
            obtain ⟨port, tls⟩ := found
            simp only [defaults] at run
            obtain ⟨hostEnd, target, host, hostLimit, ported, path, pathLimit, rfl, rfl⟩ :=
              urlParseRest_ok run
            exact ⟨hostStart, hostEnd, target, port, .inr ⟨cut, by omega, defaults⟩, host, hostLimit,
              ported, path, pathLimit⟩

section

variable {url hostStart hostEnd target : Bytes} {u : Url} {port : Int}

theorem UrlParts.parses (parts : UrlParts url u hostStart hostEnd target port)
    (granted : ∀ w n, (env.alloc w n).1 = true) (w : σ) :
    ∃ w', httpUrlParse env w url = (.ok u, w') := by
  have rest (w : σ) : ∃ w', urlParseRest env w u.scheme port u.tls hostStart = (.ok u, w') := by
    have limit : ¬(targetPath target).length > maxPathLen := by
      rw [← parts.path]
      exact Nat.not_lt.mpr parts.pathLimit
    simp only [urlParseRest, parts.host, if_neg (Nat.not_lt.mpr parts.hostLimit), parts.port,
      withAlloc_granted granted, if_neg limit]
    rw [← parts.path]
    exact ⟨_, rfl⟩
  rcases parts.scheme with ⟨absent, rfl, scheme, rfl, tls⟩ | ⟨cut, short, defaults⟩
  · simp only [httpUrlParse, absent, withAlloc_granted granted]
    rw [← scheme, ← tls]
    exact rest _
  · simp only [httpUrlParse, cut, if_neg (Nat.not_lt.mpr short), withAlloc_granted granted, defaults]
    exact rest _

/-- A scheme is letters only. -/
theorem schemeDefaults_plain {scheme : Bytes} {port : Int} {tls : Bool} (text : 0 ∉ scheme)
    (known : schemeDefaults scheme = some (port, tls)) : 63 ∉ scheme := by
  intro inside
  unfold schemeDefaults at known
  split at known
  · rename_i same
    obtain ⟨d, member, lower⟩ := ciCmp_mem same text inside
    revert d
    decide +kernel
  · split at known
    · rename_i same
      obtain ⟨d, member, lower⟩ := ciCmp_mem same text inside
      revert d
      decide +kernel
    · cases known

theorem splitHost_used {hostStart host hostEnd : Bytes}
    (cut : splitHost hostStart = some (host, hostEnd)) :
    ∃ used, hostStart = used ++ hostEnd ∧ (63 ∉ host → 63 ∉ used) ∧ host.Sublist used := by
  unfold splitHost at cut
  split at cut
  · rename_i bracket
    split at cut
    · cases cut
    · rename_i found
      cases cut
      cases hostStart with
      | nil => cases bracket
      | cons b text =>
          obtain rfl : b = 91 := bracket
          rw [List.tail_cons] at found
          refine ⟨91 :: (host ++ [93]), by rw [strstr_eq_append found]; rfl, by simp, ?_⟩
          exact (List.sublist_append_left host [93]).cons 91
  · cases cut
    exact ⟨_, (List.takeWhile_append_dropWhile ..).symm, id, List.Sublist.refl _⟩

theorem splitPort_used {port p : Int} {hostEnd target : Bytes}
    (cut : splitPort port hostEnd = some (p, target)) : ∃ used, hostEnd = used ++ target ∧ 63 ∉ used := by
  unfold splitPort at cut
  split at cut
  · rename_i colon
    cases read : strtol hostEnd.tail with
    | mk value rest =>
        obtain ⟨used, shape, chars⟩ := strtol_used read
        simp only [read] at cut
        split at cut
        · cases cut
        · cases cut
          cases hostEnd with
          | nil => cases colon
          | cons b text =>
              obtain rfl : b = 58 := colon
              have whole : text = used ++ target := shape
              refine ⟨58 :: used, by rw [whole]; rfl, ?_⟩
              intro inside
              rcases List.mem_cons.mp inside with absurd | member
              · cases absurd
              · have none := chars 63 member
                revert none
                decide
  · cases cut
    exact ⟨[], rfl, nofun⟩

/-- The target of an accepted URL is its end; without a question mark in the host there is none before
the target. -/
theorem UrlParts.used (parts : UrlParts url u hostStart hostEnd target port) (text : 0 ∉ url)
    (plain : 63 ∉ u.host) :
    ∃ used, url = used ++ target ∧ 63 ∉ used ∧ u.host.Sublist used := by
  obtain ⟨front, rfl, front', inside⟩ := splitHost_used parts.host
  have front' := front' plain
  obtain ⟨number, rfl, number'⟩ := splitPort_used parts.port
  rcases parts.scheme with ⟨-, rfl, -⟩ | ⟨cut, -, defaults⟩
  · exact ⟨front ++ number, by simp, by simp [front', number'],
      inside.trans (List.sublist_append_left _ _)⟩
  · rw [strstr_eq_append cut] at text ⊢
    have scheme : 63 ∉ u.scheme :=
      schemeDefaults_plain (fun nul => text (by simp [nul])) defaults
    refine ⟨u.scheme ++ ascii "://" ++ front ++ number, by simp, ?_,
      inside.trans ((List.sublist_append_right _ _).trans (List.sublist_append_left _ _))⟩
    have separator : (63 : UInt8) ∉ ascii "://" := by decide
    simp [scheme, separator, front', number']

/-- A URL has one parse. -/
theorem UrlParts.unique {u' : Url} {hostStart' hostEnd' target' : Bytes} {port' : Int}
    (parts : UrlParts url u hostStart hostEnd target port)
    (parts' : UrlParts url u' hostStart' hostEnd' target' port') : u = u' := by
  obtain ⟨rfl, rfl, scheme, tls⟩ :
      hostStart = hostStart' ∧ port = port' ∧ u.scheme = u'.scheme ∧ u.tls = u'.tls := by
    rcases parts.scheme with ⟨absent, rfl, scheme, rfl, tls⟩ | ⟨cut, -, defaults⟩
    · rcases parts'.scheme with ⟨-, rfl, scheme', rfl, tls'⟩ | ⟨cut, -⟩
      · exact ⟨rfl, rfl, scheme.trans scheme'.symm, tls.trans tls'.symm⟩
      · rw [absent] at cut
        cases cut
    · rcases parts'.scheme with ⟨absent, -⟩ | ⟨cut', -, defaults'⟩
      · rw [absent] at cut
        cases cut
      · rw [cut, Option.some.injEq, Prod.mk.injEq] at cut'
        rw [← cut'.1, defaults, Option.some.injEq, Prod.mk.injEq] at defaults'
        exact ⟨cut'.2, defaults'.1, cut'.1, defaults'.2⟩
  have host := parts.host
  rw [parts'.host, Option.some.injEq, Prod.mk.injEq] at host
  have ported := parts.port
  rw [← host.2, parts'.port, Option.some.injEq, Prod.mk.injEq] at ported
  have path : u.path = u'.path := by rw [parts.path, parts'.path, ported.2]
  cases u
  cases u'
  simp_all

theorem UrlParts.port_range (parts : UrlParts url u hostStart hostEnd target port) :
    0 < u.port ∧ u.port ≤ 65535 := by
  have initial : 0 < port ∧ port ≤ 65535 := by
    rcases parts.scheme with ⟨-, -, -, rfl, -⟩ | ⟨-, -, defaults⟩
    · decide
    · unfold schemeDefaults at defaults
      split at defaults
      · simp only [Option.some.injEq, Prod.mk.injEq] at defaults
        omega
      · split at defaults
        · simp only [Option.some.injEq, Prod.mk.injEq] at defaults
          omega
        · cases defaults
  have ported := parts.port
  unfold splitPort at ported
  split at ported
  · dsimp only at ported
    split at ported
    · cases ported
    · rename_i allowed
      simp only [Option.some.injEq, Prod.mk.injEq] at ported
      omega
  · cases ported
    exact initial

theorem UrlParts.path_chars (parts : UrlParts url u hostStart hostEnd target port) {c : UInt8}
    (inside : c ∈ u.path) : c = 47 ∨ c ∈ target := by
  rw [parts.path, targetPath] at inside
  have front := List.takeWhile_prefix (l := target) (· != 35)
  split at inside
  · exact .inr (front.subset inside)
  · exact (List.mem_cons.mp inside).imp_right fun member => front.subset member

/-- The host and the path are written in the URL, but for a slash before the path. -/
theorem UrlParts.mem (parts : UrlParts url u hostStart hostEnd target port) {c : UInt8} :
    (c ∈ u.host → c ∈ url) ∧ (c ∈ u.path → c = 47 ∨ c ∈ url) := by
  obtain ⟨front, shape, -, inside⟩ := splitHost_used parts.host
  obtain ⟨number, shape', -⟩ := splitPort_used parts.port
  have start : hostStart ⊆ url := by
    rcases parts.scheme with ⟨-, rfl, -⟩ | ⟨cut, -⟩
    · exact List.Subset.refl _
    · rw [strstr_eq_append cut]
      exact List.subset_append_right _ _
  have end' : target ⊆ hostStart := by
    rw [shape, shape']
    exact List.Subset.trans (List.subset_append_right _ _) (List.subset_append_right _ _)
  refine ⟨fun host => start ?_, fun path => (parts.path_chars path).imp_right fun member => start (end' member)⟩
  rw [shape]
  exact List.mem_append_left _ (inside.subset host)

/-! ## A query behind a URL -/

theorem charAt_append (text : Bytes) {tail : Bytes} {c : UInt8} (nul : c ≠ 0) (border : c ∉ tail.head?) :
    charAt (text ++ tail) = c ↔ charAt text = c := by
  cases text with
  | nil =>
      cases tail with
      | nil => rfl
      | cons d tail =>
          have other : d ≠ c := fun same => border (by simp [same])
          simp [charAt, other, Ne.symm nul]
  | cons b text => rfl

theorem splitHost_append {host tail : Bytes} (cut : splitHost hostStart = some (host, hostEnd))
    (border : 91 ∉ tail.head?) (stops : 63 ∈ hostStart ∨ ∀ c ∈ tail.head?, c = 63) :
    splitHost (hostStart ++ tail) = some (host, hostEnd ++ tail) := by
  have bracket := charAt_append hostStart (by decide) border
  unfold splitHost at cut ⊢
  by_cases open' : charAt hostStart = 91
  · rw [if_pos open'] at cut
    rw [if_pos (bracket.mpr open')]
    split at cut
    · cases cut
    · rename_i found
      cases cut
      cases hostStart with
      | nil => cases open'
      | cons b text =>
          rw [List.tail_cons] at found
          rw [List.cons_append, List.tail_cons, strstr_append tail found]
  · rw [if_neg open'] at cut
    rw [if_neg (fun same => open' (bracket.mp same))]
    cases cut
    have ends : (∃ c ∈ hostStart, (c != 58 && c != 47 && c != 63 && c != 35) = false) ∨
        ∀ c ∈ tail.head?, (c != 58 && c != 47 && c != 63 && c != 35) = false := by
      rcases stops with inside | first
      · exact .inl ⟨63, inside, rfl⟩
      · refine .inr fun c inside => ?_
        rw [first c inside]
        rfl
    obtain ⟨taken, left⟩ := takeWhile_dropWhile_append ends
    simp only [taken, left]

theorem splitPort_append {p : Int} {tail : Bytes} (cut : splitPort port hostEnd = some (p, target))
    (border : 58 ∉ tail.head?) (border' : ∀ c ∈ tail.head?, isDigit c = false) :
    splitPort port (hostEnd ++ tail) = some (p, target ++ tail) := by
  have colon := charAt_append hostEnd (by decide) border
  unfold splitPort at cut ⊢
  by_cases ported : charAt hostEnd = 58
  · rw [if_pos ported] at cut
    rw [if_pos (colon.mpr ported)]
    cases hostEnd with
    | nil => cases ported
    | cons b text =>
        rw [List.tail_cons] at cut
        rw [List.cons_append, List.tail_cons]
        cases read : strtol text with
        | mk value rest =>
            simp only [read] at cut
            split at cut
            · cases cut
            · rename_i allowed
              cases cut
              simp only [strtol_append read (by omega) border', if_neg allowed]
  · rw [if_neg ported] at cut
    rw [if_neg (fun same => ported (colon.mp same))]
    cases cut
    rfl

theorem targetPath_append {tail : Bytes} (fragment : 35 ∉ target) (fragment' : 35 ∉ tail)
    (border : 47 ∉ tail.head?) : targetPath (target ++ tail) = targetPath target ++ tail := by
  have slash := charAt_append target (by decide) border
  have both : 35 ∉ target ++ tail := by simp [fragment, fragment']
  unfold targetPath
  rw [takeWhile_whole fragment, takeWhile_whole both]
  by_cases rooted : charAt target = 47
  · rw [if_pos rooted, if_pos (slash.mpr rooted)]
  · rw [if_neg rooted, if_neg (fun same => rooted (slash.mp same))]
    rfl

/-- An accepted URL is accepted with more query behind it, which is all in the path. -/
theorem UrlParts.append (parts : UrlParts url u hostStart hostEnd target port) {tail : Bytes}
    (text : 0 ∉ url) (fragment : 35 ∉ url) (plain : 63 ∉ u.host) (colon : 58 ∉ tail)
    (fragment' : 35 ∉ tail) (border : ∀ c ∈ tail.head?, c = 63 ∨ c = 38 ∧ 63 ∈ url)
    (room : u.path.length + tail.length ≤ maxPathLen) :
    UrlParts (url ++ tail) { u with path := u.path ++ tail } (hostStart ++ tail) (hostEnd ++ tail)
      (target ++ tail) port := by
  obtain ⟨used, split, before, -⟩ := parts.used text plain
  obtain ⟨front, hosts, -⟩ := splitHost_used parts.host
  obtain ⟨number, ports, -⟩ := splitPort_used parts.port
  have marks (c : UInt8) (inside : c ∈ tail.head?) : c = 63 ∨ c = 38 := (border c inside).imp_right And.left
  have other {d : UInt8} (question : d ≠ 63) (ampersand : d ≠ 38) : d ∉ tail.head? :=
    fun inside => (marks d inside).elim question ampersand
  have stops : 63 ∈ hostStart ∨ ∀ c ∈ tail.head?, c = 63 := by
    by_cases mark : 63 ∈ url
    · left
      rw [split, List.mem_append] at mark
      rw [hosts, ports]
      simp [mark.resolve_left before]
    · right
      exact fun c inside => (border c inside).elim id fun both => absurd both.2 mark
  refine ⟨?_, splitHost_append parts.host (other (by decide) (by decide)) stops, parts.hostLimit,
    splitPort_append parts.port (other (by decide) (by decide)) ?_, ?_, ?_⟩
  · rcases parts.scheme with ⟨absent, same, rest⟩ | ⟨cut, rest⟩
    · refine .inl ⟨strstr_append_eq_none absent (strstr_eq_none_of_not_mem (by decide) colon) ?_, ?_, rest⟩
      · intro c inside
        rcases marks c inside with rfl | rfl <;> decide
      · rw [same]
    · exact .inr ⟨strstr_append tail cut, rest⟩
  · intro c inside
    rcases marks c inside with rfl | rfl <;> rfl
  · have clear : 35 ∉ target := fun inside => fragment (by rw [split]; simp [inside])
    rw [targetPath_append clear fragment' (other (by decide) (by decide)), ← parts.path]
  · rw [List.length_append]
    exact room

end

end WolfCert.Http
