import SelectSql.Data.Json.Printer
import SelectSql.Data.Json.Reader
import SelectSql.Proofs.Decimal.Shortest

/-!
# SelectSql.Proofs.Json.Numbers

The numbers of a JSON text are read back.

Design points:

* **What follows is part of the statement**: a number is read back in front of every text
  that `Stops` it, one that goes on with neither a digit nor a point nor an exponent.
* **A layout is read as a value** (`Json.ReadsAs`): wherever the point stands, and with or
  without an exponent, the numeral that is read has the value of the decimal. So the number
  read is the one that this decimal rounds to.
* **A text with a point or an exponent is never an integer**, and one without is never a
  float: the variant of a number comes back with it.

Main statements: `Json.number?_finite`, `Json.number?_int`.
-/

namespace SelectSql

open Binary64 (ofDecimal_eq withSign_zero)

/-! ## Runs of digits -/

/-- A text that does not go on with a numeral. -/
def Stops (cs : List Char) : Prop :=
  ∀ c, cs.head? = some c → isDigit c = false ∧ c ≠ '.' ∧ c ≠ 'e' ∧ c ≠ 'E'

theorem Stops.nil : Stops [] := by
  intro c hc
  contradiction

theorem spanDigits_append {ds rest : List Char} (hds : ∀ c ∈ ds, isDigit c = true)
    (hrest : ∀ c, rest.head? = some c → isDigit c = false) :
    spanDigits (ds ++ rest) = (ds, rest) := by
  have hstop : rest.takeWhile isDigit = [] ∧ rest.dropWhile isDigit = rest := by
    cases rest with
    | nil => exact ⟨rfl, rfl⟩
    | cons c rest => simp [hrest c rfl]
  rw [spanDigits, List.takeWhile_append_of_pos hds, List.dropWhile_append_of_pos hds, hstop.1,
    hstop.2, List.append_nil]

theorem isDigit_toDigits (n : ℕ) : ∀ c ∈ Nat.toDigits 10 n, isDigit c = true :=
  fun _ hc => Nat.isDigit_of_mem_toDigits (by decide) (by decide) hc

theorem isDigit_zeros (n : ℕ) : ∀ c ∈ Layout.zeros n, isDigit c = true := by
  intro c hc
  rw [Layout.zeros, List.mem_replicate] at hc
  rw [hc.2]
  decide

theorem digitsValue_toDigits (n : ℕ) : digitsValue (Nat.toDigits 10 n) = n :=
  Nat.ofDigitChars_ten_toDigits

theorem digitsValue_append_zeros (ds : List Char) (k : ℕ) :
    digitsValue (ds ++ Layout.zeros k) = digitsValue ds * 10 ^ k := by
  have h := Nat.ofDigitChars_append (b := 10) (l := ds) (m := Layout.zeros k) 0
  rw [Layout.zeros, Nat.ofDigitChars_replicate_zero] at h
  exact h.trans (Nat.mul_comm _ _)

theorem digitsValue_zeros_append (k : ℕ) (ds : List Char) :
    digitsValue (Layout.zeros k ++ ds) = digitsValue ds := by
  have h := Nat.ofDigitChars_append (b := 10) (l := Layout.zeros k) (m := ds) 0
  rw [Layout.zeros, Nat.ofDigitChars_replicate_zero, Nat.mul_zero] at h
  exact h

/-- The digits of a positive number start with no zero. -/
theorem exists_toDigits {n : ℕ} (hn : n ≠ 0) :
    ∃ c ds, Nat.toDigits 10 n = c :: ds ∧ c ≠ '0' := by
  induction n using Nat.strongRecOn with
  | ind n ih =>
      by_cases hlt : n < 10
      · refine ⟨n.digitChar, [], Nat.toDigits_of_lt_base hlt, ?_⟩
        rw [ne_eq, Nat.digitChar_eq_zero]
        exact hn
      · obtain ⟨c, ds, hds, hc⟩ := ih (n / 10) (by omega) (by omega)
        refine ⟨c, ds ++ [(n % 10).digitChar], ?_, hc⟩
        rw [Nat.toDigits_of_base_le (by decide) (by omega), hds, List.cons_append]

namespace Json

theorem wholeDigits?_zero {rest : List Char}
    (hrest : ∀ c, rest.head? = some c → isDigit c = false) :
    wholeDigits? ('0' :: rest) = some (['0'], rest) := by
  cases rest with
  | nil => rfl
  | cons c rest => simp [wholeDigits?, hrest c rfl]

theorem wholeDigits?_cons {c : Char} {ds rest : List Char} (hc : c ≠ '0')
    (hds : ∀ d ∈ c :: ds, isDigit d = true)
    (hrest : ∀ c, rest.head? = some c → isDigit c = false) :
    wholeDigits? (c :: ds ++ rest) = some (c :: ds, rest) := by
  have hspan := spanDigits_append hds hrest
  rw [wholeDigits?]
  · rw [hspan]
  · intro rest' h
    exact hc (List.cons.inj h).1

/-- The digits of a whole number are read as they are written. -/
theorem wholeDigits?_toDigits (n : ℕ) {rest : List Char}
    (hrest : ∀ c, rest.head? = some c → isDigit c = false) :
    wholeDigits? (Nat.toDigits 10 n ++ rest) = some (Nat.toDigits 10 n, rest) := by
  by_cases hn : n = 0
  · subst hn
    exact wholeDigits?_zero hrest
  · obtain ⟨c, ds, hds, hc⟩ := exists_toDigits hn
    have hdigits := isDigit_toDigits n
    rw [hds] at hdigits ⊢
    exact wholeDigits?_cons hc hdigits hrest

end Json

namespace Numeral

theorem fraction?_point {ds rest : List Char} (hne : ds ≠ []) (hds : ∀ c ∈ ds, isDigit c = true)
    (hrest : ∀ c, rest.head? = some c → isDigit c = false) :
    fraction? ('.' :: (ds ++ rest)) = some (some ds, rest) := by
  have hspan := spanDigits_append hds hrest
  obtain ⟨c, ds, rfl⟩ := List.exists_cons_of_ne_nil hne
  rw [fraction?, hspan]

theorem fraction?_none {rest : List Char} (h : rest.head? ≠ some '.') :
    fraction? rest = some (none, rest) := by
  rw [fraction?]
  rintro cs rfl
  exact h rfl

theorem exponent?_none {rest : List Char} (h : Stops rest) :
    exponent? rest = some (none, rest) := by
  cases rest with
  | nil => rfl
  | cons c rest =>
      obtain ⟨-, -, he, hE⟩ := h c rfl
      simp [exponent?, he, hE]

/-- The exponent with its sign, as a JSON text writes it. -/
theorem exponent?_signed (e : ℤ) {rest : List Char} (h : Stops rest) :
    exponent? ('e' :: (if 0 ≤ e then '+' else '-') :: (Nat.toDigits 10 e.natAbs ++ rest)) =
      some (some e, rest) := by
  have hspan := spanDigits_append (isDigit_toDigits e.natAbs) fun c hc => (h c hc).1
  have hvalue := digitsValue_toDigits e.natAbs
  obtain ⟨c, ds, hds⟩ := List.exists_cons_of_ne_nil (Nat.toDigits_ne_nil (n := e.natAbs) (b := 10))
  rw [hds] at hspan hvalue ⊢
  by_cases he : 0 ≤ e
  · simp only [exponent?, he, if_true, true_or, hspan, hvalue]
    simp [abs_of_nonneg he]
  · simp only [exponent?, he, if_false, if_true, true_or, hspan, hvalue]
    simp [abs_of_neg (not_le.1 he)]

/-- The exponent of a number with its mark and its sign. -/
def exponentText (e : ℤ) : List Char :=
  'e' :: (if 0 ≤ e then '+' else '-') :: Nat.toDigits 10 e.natAbs

section Behind

variable (negative : Bool) (ds : List Char) {fs rest : List Char} (h : Stops rest)
include h

theorem behind?_whole : behind? negative ds rest = some (⟨negative, ds, [], 0, true⟩, rest) := by
  have hpoint : rest.head? ≠ some '.' := fun hc => (h '.' hc).2.1 rfl
  rw [behind?, fraction?_none hpoint]
  simp [exponent?_none h]

theorem behind?_point (hne : fs ≠ []) (hfs : ∀ c ∈ fs, isDigit c = true) :
    behind? negative ds ('.' :: (fs ++ rest)) = some (⟨negative, ds, fs, 0, false⟩, rest) := by
  rw [behind?, fraction?_point hne hfs fun c hc => (h c hc).1]
  simp [exponent?_none h]

theorem behind?_exponent (e : ℤ) :
    behind? negative ds (exponentText e ++ rest) = some (⟨negative, ds, [], e, false⟩, rest) := by
  have hpoint : (exponentText e ++ rest).head? ≠ some '.' := by simp [exponentText]
  have hexp : exponent? (exponentText e ++ rest) = some (some e, rest) := exponent?_signed e h
  rw [behind?, fraction?_none hpoint]
  simp [hexp]

theorem behind?_pointExponent (hne : fs ≠ []) (hfs : ∀ c ∈ fs, isDigit c = true) (e : ℤ) :
    behind? negative ds ('.' :: (fs ++ (exponentText e ++ rest))) =
      some (⟨negative, ds, fs, e, false⟩, rest) := by
  have hexp : exponent? (exponentText e ++ rest) = some (some e, rest) := exponent?_signed e h
  have hmark : ∀ c, (exponentText e ++ rest).head? = some c → isDigit c = false := by
    intro c hc
    obtain rfl : 'e' = c := by simpa [exponentText] using hc
    decide
  rw [behind?, fraction?_point hne hfs hmark]
  simp [hexp]

end Behind

/-- The decimal that a numeral writes, without its sign. -/
def decimal (n : Numeral) : Decimal :=
  ⟨digitsValue (n.digits ++ n.fraction), n.exponent - n.fraction.length⟩

end Numeral

/-! ## Layouts -/

namespace Json

/-- A text is read as a numeral with a fraction or an exponent, of a certain value, in front
of every text that stops. -/
def ReadsAs (cs : List Char) (v : ℚ) : Prop :=
  ∀ negative rest, Stops rest → ∃ ds behind n, wholeDigits? (cs ++ rest) = some (ds, behind) ∧
    Numeral.behind? negative ds behind = some (n, rest) ∧
    n.negative = negative ∧ n.whole = false ∧ n.decimal.value = v

/-- Digits that are read as the whole part of a number. -/
def IsWhole (ds : List Char) : Prop :=
  ∀ rest : List Char, (∀ c, rest.head? = some c → isDigit c = false) →
    wholeDigits? (ds ++ rest) = some (ds, rest)

theorem IsWhole.zero : IsWhole ['0'] :=
  fun _ hrest => wholeDigits?_zero hrest

theorem ReadsAs.point {ds fs : List Char} (hds : IsWhole ds) (hne : fs ≠ [])
    (hfs : ∀ c ∈ fs, isDigit c = true) :
    ReadsAs (ds ++ '.' :: fs) (digitsValue (ds ++ fs) * 10 ^ (-fs.length : ℤ)) := by
  intro negative rest hrest
  have hpoint : ∀ c, ('.' :: (fs ++ rest)).head? = some c → isDigit c = false := by
    intro c hc
    obtain rfl : '.' = c := by simpa using hc
    decide
  refine ⟨ds, '.' :: (fs ++ rest), _, ?_, Numeral.behind?_point negative ds hrest hne hfs, rfl,
    rfl, ?_⟩
  · rw [List.append_assoc]
    exact hds _ hpoint
  · simp [Numeral.decimal, Decimal.value]

/-- All digits stand behind the point. -/
theorem readsAs_zerosBefore {ds : List Char} (hne : ds ≠ []) (hds : ∀ d ∈ ds, isDigit d = true)
    (k : ℕ) :
    ReadsAs ('0' :: '.' :: (Layout.zeros k ++ ds))
      (digitsValue ds * 10 ^ (-(k + ds.length) : ℤ)) := by
  have hfs : ∀ d ∈ Layout.zeros k ++ ds, isDigit d = true := by
    intro d hd
    rcases List.mem_append.1 hd with hd | hd
    · exact isDigit_zeros _ d hd
    · exact hds d hd
  have h := ReadsAs.point IsWhole.zero (by simp [hne]) hfs
  have hvalue : digitsValue (['0'] ++ (Layout.zeros k ++ ds)) = digitsValue ds :=
    digitsValue_zeros_append k ds
  have hlen : ((Layout.zeros k ++ ds).length : ℤ) = k + ds.length := by simp [Layout.zeros]
  rw [hvalue, hlen] at h
  exact h

section Digits

variable {c : Char} {ds : List Char} (hc : c ≠ '0') (hds : ∀ d ∈ c :: ds, isDigit d = true)
include hc hds

theorem IsWhole.cons : IsWhole (c :: ds) :=
  fun _ hrest => wholeDigits?_cons hc hds hrest

/-- The point stands among the digits. -/
theorem readsAs_between {k : ℕ} (hk : k < ds.length) :
    ReadsAs (c :: ds.take k ++ '.' :: ds.drop k)
      (digitsValue (c :: ds) * 10 ^ ((k : ℤ) - ds.length)) := by
  have hwhole : IsWhole (c :: ds.take k) :=
    .cons hc fun d hd => hds d (List.mem_of_mem_take (i := k + 1) hd)
  have hfs : ∀ d ∈ ds.drop k, isDigit d = true :=
    fun d hd => hds d (List.mem_cons_of_mem c (List.mem_of_mem_drop hd))
  have hne : ds.drop k ≠ [] := by
    rw [ne_eq, List.drop_eq_nil_iff]
    omega
  have h := ReadsAs.point hwhole hne hfs
  have hall : c :: ds.take k ++ ds.drop k = c :: ds := by simp
  have hlen : (-((ds.drop k).length : ℤ)) = (k : ℤ) - ds.length := by
    rw [List.length_drop]
    omega
  rw [hall, hlen] at h
  exact h

/-- The digits stand before the point, with zeros behind them. -/
theorem readsAs_zerosBehind (k : ℕ) :
    ReadsAs (c :: ds ++ Layout.zeros k ++ ['.', '0']) (digitsValue (c :: ds) * 10 ^ k) := by
  have hwhole : IsWhole (c :: (ds ++ Layout.zeros k)) := by
    refine .cons hc fun d hd => ?_
    rw [← List.cons_append] at hd
    rcases List.mem_append.1 hd with hd | hd
    · exact hds d hd
    · exact isDigit_zeros _ d hd
  have hfs : ∀ d ∈ ['0'], isDigit d = true := List.forall_mem_singleton.2 (by decide)
  have h := ReadsAs.point hwhole (by simp) hfs
  have hzeros : Layout.zeros k ++ ['0'] = Layout.zeros (k + 1) := List.replicate_succ'.symm
  have hvalue : (digitsValue (c :: (ds ++ Layout.zeros k) ++ ['0']) : ℚ) =
      digitsValue (c :: ds) * 10 ^ (k + 1) := by
    rw [List.cons_append, List.append_assoc, hzeros, ← List.cons_append,
      digitsValue_append_zeros]
    push_cast
    rfl
  have hscale : (digitsValue (c :: ds) * 10 ^ (k + 1) : ℚ) * 10 ^ (-(['0'].length : ℤ)) =
      digitsValue (c :: ds) * 10 ^ k := by
    rw [List.length_singleton, Nat.cast_one, zpow_neg_one, pow_succ]
    ring
  rw [hvalue, hscale] at h
  exact h

/-- One digit stands before the point, and the exponent behind the others. -/
theorem readsAs_placeExponent (e : ℤ) :
    ReadsAs (Layout.placeExponent (c :: ds) e)
      (digitsValue (c :: ds) * 10 ^ (e - ds.length)) := by
  have hwhole : IsWhole [c] := .cons hc fun d hd => hds d (by simp_all)
  intro negative rest hrest
  cases ds with
  | nil =>
      have hmark : ∀ c, (Numeral.exponentText e ++ rest).head? = some c → isDigit c = false := by
        intro c hc
        obtain rfl : 'e' = c := by simpa [Numeral.exponentText] using hc
        decide
      exact ⟨[c], _, _, hwhole _ hmark, Numeral.behind?_exponent negative [c] hrest e, rfl, rfl,
        by simp [Numeral.decimal, Decimal.value]⟩
  | cons d ds =>
      have hfs : ∀ f ∈ d :: ds, isDigit f = true := fun f hf => hds f (List.mem_cons_of_mem c hf)
      have hpoint : ∀ c, ('.' :: (d :: ds ++ (Numeral.exponentText e ++ rest))).head? = some c →
          isDigit c = false := by
        intro c hc
        obtain rfl : '.' = c := by simpa using hc
        decide
      have htext : Layout.placeExponent (c :: d :: ds) e ++ rest =
          [c] ++ '.' :: (d :: ds ++ (Numeral.exponentText e ++ rest)) := by
        simp [Layout.placeExponent, Numeral.exponentText]
      rw [htext]
      exact ⟨[c], _, _, hwhole _ hpoint,
        Numeral.behind?_pointExponent negative [c] hrest (by simp) hfs e, rfl, rfl,
        by simp [Numeral.decimal, Decimal.value]⟩

theorem readsAs_placePoint (point : ℤ) :
    ReadsAs (Layout.placePoint true (c :: ds) point)
      (digitsValue (c :: ds) * 10 ^ (point - (c :: ds).length)) := by
  unfold Layout.placePoint
  split
  · next hpoint =>
    have h := readsAs_zerosBefore (by simp) hds (-point).toNat
    have hexp : (-((-point).toNat + (c :: ds).length) : ℤ) = point - (c :: ds).length := by omega
    rw [hexp] at h
    exact h
  · split
    · next hpos hlt =>
      obtain ⟨k, rfl⟩ : ∃ k : ℕ, point = (k + 1 : ℕ) := ⟨point.toNat - 1, by omega⟩
      have h := readsAs_between hc hds (k := k) (by simp at hlt; omega)
      have hexp : ((k : ℤ) - ds.length) = ((k + 1 : ℕ) : ℤ) - (c :: ds).length := by
        simp
      rw [hexp] at h
      exact h
    · next hpos hle =>
      have h := readsAs_zerosBehind hc hds (point.toNat - (c :: ds).length)
      have hexp : point - (c :: ds).length = ((point.toNat - (c :: ds).length : ℕ) : ℤ) := by omega
      rw [hexp, zpow_natCast]
      exact h

end Digits

/-- **The text of a decimal is read as a numeral of its value.** -/
theorem readsAs_ofDecimal (d : Decimal) : ReadsAs (Layout.json.ofDecimal d) d.value := by
  unfold Layout.ofDecimal
  split
  · next hzero =>
    have hfs : ∀ c ∈ ['0'], isDigit c = true := List.forall_mem_singleton.2 (by decide)
    have h := ReadsAs.point IsWhole.zero (by simp) hfs
    have hvalue : digitsValue (['0'] ++ ['0']) = 0 := rfl
    rw [hvalue, Nat.cast_zero, zero_mul] at h
    rw [Decimal.value, hzero, Nat.cast_zero, zero_mul]
    exact h
  · next hne =>
    obtain ⟨c, ds, hcs, hc⟩ := exists_toDigits hne
    have hds := isDigit_toDigits d.digits
    have hvalue : (d.digits : ℚ) = digitsValue (c :: ds) := by
      rw [← hcs, digitsValue_toDigits]
    rw [hcs] at hds
    rw [Decimal.value, hvalue]
    simp only [hcs]
    split
    · have h := readsAs_placePoint hc hds ((c :: ds).length + d.exponent)
      rw [add_sub_cancel_left] at h
      exact h
    · have h := readsAs_placeExponent hc hds ((c :: ds).length + d.exponent - 1)
      have hexp : ((c :: ds).length : ℤ) + d.exponent - 1 - ds.length = d.exponent := by
        simp only [List.length_cons]
        omega
      rw [hexp] at h
      exact h

/-! ## Numbers -/

/-- A number without a sign: its digits do not start with one. -/
theorem number?_unsigned {cs ds behind rest : List Char} {n : Numeral}
    (hds : wholeDigits? cs = some (ds, behind))
    (hn : Numeral.behind? false ds behind = some (n, rest)) :
    number? cs = some (ofNumeral n, rest) := by
  unfold number?
  split
  · next negative cs' hsign =>
    split at hsign
    · -- no digit is a minus sign
      simp [wholeDigits?, spanDigits, isDigit] at hds
    · obtain ⟨rfl, rfl⟩ := Prod.mk.inj hsign
      simp [hds, hn]

theorem number?_negative {cs ds behind rest : List Char} {n : Numeral}
    (hds : wholeDigits? cs = some (ds, behind))
    (hn : Numeral.behind? true ds behind = some (n, rest)) :
    number? ('-' :: cs) = some (ofNumeral n, rest) := by
  simp [number?, hds, hn]

/-- A numeral whose value is the shortest decimal of a number is read as this number. -/
theorem toBinary64_eq {x : Binary64} (hx : x.isFinite = true) {n : Numeral} {tie : Decimal.Tie}
    (hsign : n.negative = x.isNegative)
    (hvalue : n.decimal.value = (Decimal.shortest tie x.magnitude).value) : n.toBinary64 = x := by
  have hread : n.toBinary64 =
      Binary64.ofDecimal x.isNegative n.decimal.digits n.decimal.exponent := by
    rw [← hsign]
    rfl
  rw [hread]
  by_cases hm : x.magnitude.m = 0
  · have hzero : (Decimal.shortest tie x.magnitude).value = 0 := by
      simp [Decimal.shortest, hm, Decimal.value]
    rw [hzero, Decimal.value, mul_eq_zero] at hvalue
    have hdigits : n.decimal.digits = 0 := by
      have hpow : (10 : ℚ) ^ n.decimal.exponent ≠ 0 := by positivity
      exact_mod_cast hvalue.resolve_right hpow
    have h := withSign_zero hx hm
    simpa [Binary64.ofDecimal, hdigits] using h
  · have hrounds := Decimal.rounds_shortest tie hm
    rw [← hvalue] at hrounds
    exact ofDecimal_eq hx hm hrounds

/-- **A finite number is read back from its text.** -/
theorem number?_finite {x : Binary64} (hx : x.isFinite = true) {rest : List Char}
    (hrest : Stops rest) :
    number? (Layout.json.finite x ++ rest) = some (.float x, rest) := by
  obtain ⟨ds, behind, n, hds, hn, hsign, hwhole, hvalue⟩ :=
    readsAs_ofDecimal (Decimal.shortest .even x.magnitude) x.isNegative rest hrest
  have hnode : ofNumeral n = .float x := by
    simp [ofNumeral, hwhole, toBinary64_eq hx hsign hvalue, hx]
  rw [Layout.finite, ← hnode]
  cases hneg : x.isNegative with
  | true =>
      rw [hneg] at hn
      exact number?_negative hds hn
  | false =>
      rw [hneg] at hn
      exact number?_unsigned hds hn

/-- **An integer that fits 64 bits is read back from its text.** -/
theorem number?_int {i : ℤ} (hlow : Int64.minValue.toInt ≤ i) (hhigh : i < UInt64.size)
    {rest : List Char} (hrest : Stops rest) :
    number? ((toString i).toList ++ rest) = some (.int i, rest) := by
  have hdigit : ∀ c, rest.head? = some c → isDigit c = false := fun c hc => (hrest c hc).1
  have hds := wholeDigits?_toDigits i.natAbs hdigit
  have htree : Tree.ofInt i = .int i := by rw [Tree.ofInt, if_pos ⟨hlow, hhigh⟩]
  have hnode (negative : Bool) (hsign : (if negative then -(i.natAbs : ℤ) else i.natAbs) = i)
      (hzero : negative = true → i ≠ 0) :
      ofNumeral ⟨negative, Nat.toDigits 10 i.natAbs, [], 0, true⟩ = .int i := by
    have hint : Numeral.toInt ⟨negative, Nat.toDigits 10 i.natAbs, [], 0, true⟩ = i := by
      rw [Numeral.toInt, digitsValue_toDigits]
      exact hsign
    have hplain : (negative && i == 0) = false := by
      cases negative with
      | true => simpa using hzero rfl
      | false => rfl
    unfold ofNumeral
    simp only [hint, hplain, Bool.not_false, Bool.and_self, if_true, htree]
  rw [Int.toString_eq_repr, Int.repr_eq_if]
  by_cases hneg : i < 0
  · have hn := Numeral.behind?_whole true (Nat.toDigits 10 i.natAbs) hrest
    have habs : (-i).toNat = i.natAbs := by omega
    rw [if_neg (by omega), habs, String.toList_append, Nat.toList_repr,
      ← hnode true (by rw [if_pos rfl]; omega) (by omega)]
    exact number?_negative hds hn
  · have hn := Numeral.behind?_whole false (Nat.toDigits 10 i.natAbs) hrest
    have habs : i.toNat = i.natAbs := by omega
    rw [if_pos (by omega), habs, Nat.toList_repr,
      ← hnode false (by simp only [Bool.false_eq_true, if_false]; omega) (by simp)]
    exact number?_unsigned hds hn

end Json

end SelectSql
