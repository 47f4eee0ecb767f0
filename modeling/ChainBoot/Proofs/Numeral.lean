import Mathlib.Data.Nat.Digits.Lemmas
import ChainBoot.Options.Size

/-!
# Numerals

Which characters write which number, stated without a parser.

* `IsDigit`   a character writes a digit of a base, in either case;
* `Numeral`   digits, and the number that they write;
* `Signed`    a numeral, possibly behind a plus sign;
* `Number`    the same in base ten, or in base sixteen behind its mark.

The readers are exact for them: `digit?_eq_some_iff`, `digits?_eq_some_iff`, `signed?_eq_some_iff`,
`number?_eq_some_iff`.  `numeral_toDigits` writes every number in every base, and zeros in front
(`Numeral.zeros`) or capital letters (`Numeral.upper`) write the same one.
-/

namespace ChainBoot.Size

/-! ## digits -/

/-- `c` writes the digit `d` of a base, in either case -/
def IsDigit (base : Nat) (c : Char) (d : Nat) : Prop :=
  d < base ∧ (c = d.digitChar ∨ c = d.digitChar.toUpper)

/-- at least one digit, the most significant first, and the number that they write -/
def Numeral (base : Nat) (cs : List Char) (n : Nat) : Prop :=
  ∃ ds : List Nat, ds ≠ [] ∧ List.Forall₂ (IsDigit base) cs ds ∧ n = Nat.ofDigits base ds.reverse

theorem toNat_digitChar {d : Nat} (hd : d < 16) :
    d.digitChar.toNat = (if d < 10 then 48 + d else 87 + d)
      ∧ d.digitChar.toUpper.toNat = if d < 10 then 48 + d else 55 + d := by
  interval_cases d <;> decide

section
variable {base : Nat} (hbase : base ≤ 16)
include hbase

theorem isDigit_iff {c : Char} {d : Nat} : IsDigit base c d ↔ d < base
    ∧ (d < 10 ∧ c.toNat = 48 + d ∨ 10 ≤ d ∧ (c.toNat = 87 + d ∨ c.toNat = 55 + d)) := by
  refine and_congr_right fun hd => ?_
  obtain ⟨hlower, hupper⟩ := toNat_digitChar (d := d) (by omega)
  rw [← Char.toNat_inj, ← Char.toNat_inj, hlower, hupper]
  split <;> omega

theorem digit?_eq_some_iff {c : Char} {d : Nat} : digit? base c = some d ↔ IsDigit base c d := by
  rw [isDigit_iff hbase]
  unfold digit?
  generalize hv : (if '0' ≤ c ∧ c ≤ '9' then _ else _) = v
  simp only [Char.le_def, UInt32.le_iff_toNat_le] at hv
  change (if 48 ≤ c.toNat ∧ c.toNat ≤ 57 then c.toNat - 48
    else if 97 ≤ c.toNat ∧ c.toNat ≤ 102 then c.toNat - 97 + 10
    else if 65 ≤ c.toNat ∧ c.toNat ≤ 70 then c.toNat - 65 + 10 else base) = v at hv
  dsimp only
  rw [Option.ite_none_right_eq_some, Option.some.injEq]
  split_ifs at hv <;> omega

theorem digitsFrom?_eq_some_iff {cs : List Char} {n m : Nat} : digitsFrom? base n cs = some m ↔
    ∃ ds, List.Forall₂ (IsDigit base) cs ds
      ∧ m = n * base ^ ds.length + Nat.ofDigits base ds.reverse := by
  induction cs generalizing n with
  | nil => simp [digitsFrom?, eq_comm]
  | cons c cs ih =>
    have hshift : ∀ d ds, n * base ^ (d :: ds).length + Nat.ofDigits base (d :: ds).reverse
        = (n * base + d) * base ^ ds.length + Nat.ofDigits base ds.reverse := by
      intro d ds
      rw [List.reverse_cons, Nat.ofDigits_append, Nat.ofDigits_singleton, List.length_reverse,
        List.length_cons, pow_succ]
      ring
    rw [digitsFrom?]
    constructor
    · intro h
      split at h
      · cases h
      · rename_i d hd
        obtain ⟨ds, hds, hm⟩ := ih.mp h
        exact ⟨d :: ds, .cons ((digit?_eq_some_iff hbase).mp hd) hds, by rw [hm, hshift]⟩
    · rintro ⟨_, hds, hm⟩
      cases hds with
      | cons hd hds =>
        rw [(digit?_eq_some_iff hbase).mpr hd]
        exact ih.mpr ⟨_, hds, by rw [hm, hshift]⟩

theorem digits?_eq_some_iff {cs : List Char} {n : Nat} :
    digits? base cs = some n ↔ Numeral base cs n := by
  cases cs with
  | nil =>
    constructor
    · intro h
      cases h
    · rintro ⟨ds, hne, hds, -⟩
      cases hds
      exact absurd rfl hne
  | cons c cs =>
    rw [digits?, digitsFrom?_eq_some_iff hbase]
    constructor
    · rintro ⟨ds, hds, hn⟩
      refine ⟨ds, ?_, hds, by rw [hn, Nat.zero_mul, Nat.zero_add]⟩
      rintro rfl
      cases hds
    · rintro ⟨ds, -, hds, hn⟩
      exact ⟨ds, hds, by rw [hn, Nat.zero_mul, Nat.zero_add]⟩

theorem Numeral.isSome_digit? {cs : List Char} {n : Nat} (h : Numeral base cs n) :
    ∀ c ∈ cs, (digit? 16 c).isSome := by
  obtain ⟨ds, -, hds, -⟩ := h
  induction hds with
  | nil => exact fun c hc => absurd hc List.not_mem_nil
  | cons hd _ ih =>
    refine List.forall_mem_cons.mpr ⟨?_, ih⟩
    rw [(digit?_eq_some_iff (Nat.le_refl 16)).mpr ⟨Nat.lt_of_lt_of_le hd.1 hbase, hd.2⟩]
    rfl

end

/-! ## numbers -/

/-- a numeral, possibly behind a plus sign -/
inductive Signed (base : Nat) : List Char → Nat → Prop
  | bare {cs : List Char} {n : Nat} : Numeral base cs n → Signed base cs n
  | plus {cs : List Char} {n : Nat} : Numeral base cs n → Signed base ('+' :: cs) n

/-- a number in decimal, or in hexadecimal behind its mark -/
inductive Number : List Char → Nat → Prop
  | decimal {cs : List Char} {n : Nat} : Signed 10 cs n → Number cs n
  | hex {x : Char} {cs : List Char} {n : Nat} : x = 'x' ∨ x = 'X' → Signed 16 cs n →
      Number ('0' :: x :: cs) n

theorem signed?_eq_some_iff {base : Nat} (hbase : base ≤ 16) {cs : List Char} {n : Nat} :
    signed? base cs = some n ↔ Signed base cs n := by
  constructor
  · intro h
    unfold signed? at h
    split at h
    · exact .plus ((digits?_eq_some_iff hbase).mp h)
    · exact .bare ((digits?_eq_some_iff hbase).mp h)
  · intro h
    cases h with
    | plus h => exact (digits?_eq_some_iff hbase).mpr h
    | bare h =>
      unfold signed?
      split
      · -- a plus sign is no digit
        have hplus := h.isSome_digit? hbase '+' (List.mem_cons_self ..)
        exact absurd hplus (by decide)
      · exact (digits?_eq_some_iff hbase).mpr h

/-- no mark of a base is a digit -/
theorem Signed.second_ne {base : Nat} (hbase : base ≤ 16) {c x : Char} {cs : List Char} {n : Nat}
    (h : Signed base (c :: x :: cs) n) : x ≠ 'x' ∧ x ≠ 'X' := by
  have hx : (digit? 16 x).isSome := by
    cases h with
    | bare h => exact h.isSome_digit? hbase x (List.mem_cons_of_mem _ (List.mem_cons_self ..))
    | plus h => exact h.isSome_digit? hbase x (List.mem_cons_self ..)
  constructor
  · rintro rfl
    exact absurd hx (by decide)
  · rintro rfl
    exact absurd hx (by decide)

theorem number?_eq_some_iff {cs : List Char} {n : Nat} : number? cs = some n ↔ Number cs n := by
  have hten : 10 ≤ 16 := by decide
  constructor
  · intro h
    unfold number? at h
    split at h
    · exact .hex (.inl rfl) ((signed?_eq_some_iff (Nat.le_refl _)).mp h)
    · exact .hex (.inr rfl) ((signed?_eq_some_iff (Nat.le_refl _)).mp h)
    · exact .decimal ((signed?_eq_some_iff hten).mp h)
  · intro h
    cases h with
    | hex hx h =>
      rcases hx with rfl | rfl
      · exact (signed?_eq_some_iff (Nat.le_refl _)).mpr h
      · exact (signed?_eq_some_iff (Nat.le_refl _)).mpr h
    | decimal h =>
      unfold number?
      split
      · exact absurd rfl (h.second_ne hten).1
      · exact absurd rfl (h.second_ne hten).2
      · exact (signed?_eq_some_iff hten).mpr h

/-! ## writing a number -/

/-- the usual digits of a number write it -/
theorem numeral_toDigits {base : Nat} (hbase : 1 < base) (n : Nat) :
    Numeral base (Nat.toDigits base n) n := by
  induction n using Nat.strongRecOn with
  | ind n ih =>
    rw [Nat.toDigits_eq_if hbase]
    split
    · rename_i hlt
      exact ⟨[n], List.cons_ne_nil _ _, .cons ⟨hlt, .inl rfl⟩ .nil, (Nat.ofDigits_singleton ..).symm⟩
    · rename_i hge
      obtain ⟨ds, hne, hds, hn⟩ := ih (n / base) (Nat.div_lt_self (by omega) hbase)
      have hmod : n % base < base := Nat.mod_lt _ (by omega)
      refine ⟨ds ++ [n % base], List.append_ne_nil_of_left_ne_nil hne _,
        List.rel_append hds (.cons ⟨hmod, .inl rfl⟩ .nil), ?_⟩
      rw [List.reverse_append, List.reverse_singleton, List.singleton_append, Nat.ofDigits_cons, ← hn]
      exact (Nat.mod_add_div n base).symm

theorem Numeral.upper {base : Nat} (hbase : base ≤ 16) {cs : List Char} {n : Nat}
    (h : Numeral base cs n) : Numeral base (cs.map Char.toUpper) n := by
  obtain ⟨ds, hne, hds, hn⟩ := h
  refine ⟨ds, hne, List.forall₂_map_left_iff.mpr (hds.imp fun c d hcd => ⟨hcd.1, .inr ?_⟩), hn⟩
  obtain ⟨hd, rfl | rfl⟩ := hcd
  · rfl
  · have hlt : d < 16 := by omega
    interval_cases d <;> rfl

theorem Numeral.zeros {base : Nat} (hbase : 0 < base) {cs : List Char} {n : Nat}
    (h : Numeral base cs n) (k : Nat) : Numeral base (List.replicate k '0' ++ cs) n := by
  obtain ⟨ds, hne, hds, hn⟩ := h
  refine ⟨List.replicate k 0 ++ ds, List.append_ne_nil_of_right_ne_nil _ hne,
    List.rel_append ?_ hds, ?_⟩
  · induction k with
    | zero => exact .nil
    | succ k ih => exact .cons ⟨hbase, .inl rfl⟩ ih
  · rw [List.reverse_append, List.reverse_replicate, Nat.ofDigits_append,
      Nat.ofDigits_replicate_zero, Nat.mul_zero, Nat.add_zero, hn]

end ChainBoot.Size
