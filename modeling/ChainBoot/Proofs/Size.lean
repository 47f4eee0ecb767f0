import ChainBoot.Proofs.Bytes
import ChainBoot.Proofs.Numeral

/-!
# Which texts are sizes

`Denotes` says that a text is a number with at most one letter for a power of two behind it.  The
parser of sizes is exact for it and for the bound of an address (`parse?_eq_some_iff`).

It reckons without a bound and looks at the result once.  `scan?` is the same parser on the bytes of
the text and in words of 64 bits: the letter is cut off as the last byte, and every product and
every sum is checked.  `scan?_encode` says that none of this can be told from the outside.

* `parse?_exact`   a text is a size exactly if it is of the grammar and fits, whatever its length.
-/

namespace ChainBoot.Size

/-! ## factors -/

/-- at most one letter, and the factor that it stands for -/
inductive Factor : List Char → Nat → Prop
  | none : Factor [] 1
  | kilo {c : Char} : c = 'K' ∨ c = 'k' → Factor [c] (2 ^ 10)
  | mega {c : Char} : c = 'M' ∨ c = 'm' → Factor [c] (2 ^ 20)
  | giga {c : Char} : c = 'G' ∨ c = 'g' → Factor [c] (2 ^ 30)

theorem factor?_eq_some_iff {c : Char} {f : Nat} : factor? c = some f ↔ Factor [c] f := by
  unfold factor?
  constructor
  · intro h
    split at h
    · rename_i hc
      cases h
      exact .kilo hc
    · split at h
      · rename_i hc
        cases h
        exact .mega hc
      · split at h
        · rename_i hc
          cases h
          exact .giga hc
        · cases h
  · intro h
    cases h with
    | kilo h => rcases h with rfl | rfl <;> rfl
    | mega h => rcases h with rfl | rfl <;> rfl
    | giga h => rcases h with rfl | rfl <;> rfl

/-- all letters for a factor -/
def factorLetters : List Char := ['K', 'k', 'M', 'm', 'G', 'g']

theorem Factor.mem_letters {c : Char} {f : Nat} (h : Factor [c] f) : c ∈ factorLetters := by
  cases h with
  | kilo hc => rcases hc with rfl | rfl <;> decide
  | mega hc => rcases hc with rfl | rfl <;> decide
  | giga hc => rcases hc with rfl | rfl <;> decide

theorem factor?_of_not_mem {c : Char} (h : c ∉ factorLetters) : factor? c = none :=
  Option.eq_none_iff_forall_ne_some.mpr fun _ hf => h (factor?_eq_some_iff.mp hf).mem_letters

theorem factor?_of_digit {c : Char} (h : (digit? 16 c).isSome) : factor? c = none := by
  have hletters : factorLetters.all (fun c => !(digit? 16 c).isSome) = true := by decide
  refine factor?_of_not_mem fun hc => ?_
  have hno := List.all_eq_true.mp hletters c hc
  rw [h] at hno
  cases hno

/-- whatever stands in front of a numeral, the last character is no letter for a factor -/
theorem Numeral.last {base : Nat} (hbase : base ≤ 16) {cs : List Char} {n : Nat}
    (h : Numeral base cs n) (pre : List Char) : (pre ++ cs).getLast?.bind factor? = none := by
  rcases cs.eq_nil_or_concat with rfl | ⟨init, c, rfl⟩
  · obtain ⟨ds, hne, hds, -⟩ := h
    cases hds
    exact absurd rfl hne
  · rw [List.concat_eq_append, ← List.append_assoc, List.getLast?_concat, Option.bind_some]
    exact factor?_of_digit (h.isSome_digit? hbase c (by simp))

theorem Number.last {cs : List Char} {n : Nat} (h : Number cs n) :
    cs.getLast?.bind factor? = none := by
  cases h with
  | decimal h =>
    cases h with
    | bare h => exact h.last (by decide) []
    | plus h => exact h.last (by decide) ['+']
  | hex _ h =>
    cases h with
    | bare h => exact h.last (by decide) ['0', _]
    | plus h => exact h.last (by decide) ['0', _, '+']

/-! ## sizes -/

/-- a number `n`, and behind it at most one letter, for the factor `f` -/
def Denotes (cs : List Char) (n f : Nat) : Prop :=
  ∃ digits suffix, cs = digits ++ suffix ∧ Number digits n ∧ Factor suffix f

theorem denotes_iff {cs : List Char} {n f : Nat} :
    Denotes cs n f ↔ number? (unscaled cs).1 = some n ∧ (unscaled cs).2 = f := by
  constructor
  · rintro ⟨digits, suffix, rfl, hn, hf⟩
    -- what is cut off is the suffix
    have hcut : unscaled (digits ++ suffix) = (digits, f) := by
      unfold unscaled
      rcases suffix with - | ⟨c, suffix⟩
      · cases hf
        rw [List.append_nil, hn.last]
      · obtain rfl : suffix = [] := by cases hf <;> rfl
        rw [List.getLast?_concat, Option.bind_some, factor?_eq_some_iff.mpr hf]
        dsimp only
        rw [List.dropLast_concat]
    rw [hcut]
    exact ⟨number?_eq_some_iff.mpr hn, rfl⟩
  · rintro ⟨hn, rfl⟩
    have hn := number?_eq_some_iff.mp hn
    unfold unscaled at hn ⊢
    split at hn
    · rename_i f hf
      obtain ⟨c, hc, hcf⟩ := Option.bind_eq_some_iff.mp hf
      refine ⟨cs.dropLast, [c], ?_, hn, factor?_eq_some_iff.mp hcf⟩
      exact (List.dropLast_append_getLast? c hc).symm
    · exact ⟨cs, [], (List.append_nil cs).symm, hn, .none⟩

theorem Denotes.unique {cs : List Char} {n n' f f' : Nat} (h : Denotes cs n f)
    (h' : Denotes cs n' f') : n = n' ∧ f = f' := by
  obtain ⟨hn, rfl⟩ := denotes_iff.mp h
  obtain ⟨hn', rfl⟩ := denotes_iff.mp h'
  rw [hn, Option.some.injEq] at hn'
  exact ⟨hn', rfl⟩

theorem parse?_eq_some_iff {cs : List Char} {a : Address} :
    parse? cs = some a ↔ ∃ n f, Denotes cs n f ∧ n * f < 2 ^ 64 ∧ a.val = n * f := by
  unfold parse?
  constructor
  · intro h
    split at h
    · cases h
    · rename_i n hn
      split at h
      · rename_i hlt
        cases h
        exact ⟨n, _, denotes_iff.mpr ⟨hn, rfl⟩, hlt, rfl⟩
      · cases h
  · rintro ⟨n, f, hden, hlt, ha⟩
    obtain ⟨hn, rfl⟩ := denotes_iff.mp hden
    rw [hn]
    dsimp only
    have hlt : n * (unscaled cs).2 < 0x10000000000000000 := hlt
    rw [dif_pos hlt, Option.some.injEq]
    exact Fin.ext ha.symm

/-- a size that is read was written with a number that fits -/
theorem Denotes.number_lt {cs : List Char} {n f : Nat} (h : Denotes cs n f)
    (hlt : n * f < 2 ^ 64) : n < 2 ^ 64 := by
  obtain ⟨-, suffix, -, -, hf⟩ := h
  have hpos : 0 < f := by cases hf <;> decide
  exact Nat.lt_of_le_of_lt (Nat.le_mul_of_pos_right n hpos) hlt

/-! ## the same in bytes and words -/

/-- a number as a word, if it fits -/
def word? (n : Nat) : Option Address :=
  if h : n < 0x10000000000000000 then some ⟨n, h⟩ else none

/-- digits taken up one by one behind those that make `n`; no product and no sum may wrap -/
def accumulate? (base : Nat) : (n : Address) → Bytes → Option Address
  | n, [] => some n
  | n, b :: bs => do
    let d ← digit? base (.ofUInt8 b)
    let scaled ← word? (n.val * base)
    let next ← word? (scaled.val + d)
    accumulate? base next bs

/-- at least one digit -/
def scanDigits? (base : Nat) : Bytes → Option Address
  | [] => none
  | b :: bs => accumulate? base .zero (b :: bs)

def scanSigned? (base : Nat) : Bytes → Option Address
  | 0x2B :: bs => scanDigits? base bs
  | bs => scanDigits? base bs

def scanNumber? : Bytes → Option Address
  | 0x30 :: 0x78 :: bs => scanSigned? 16 bs
  | 0x30 :: 0x58 :: bs => scanSigned? 16 bs
  | bs => scanSigned? 10 bs

/-- the bytes in front of a letter for a factor in the last byte, and the factor -/
def scanUnscaled (bs : Bytes) : Bytes × Nat :=
  match bs.getLast?.bind fun b => factor? (.ofUInt8 b) with
  | some f => (bs.take (bs.length - 1), f)
  | none => (bs, 1)

def scan? (bs : Bytes) : Option Address :=
  (scanNumber? (scanUnscaled bs).1).bind fun n => word? (n.val * (scanUnscaled bs).2)

/-! ### characters as bytes -/

/-- the bytes of some characters -/
def encode (cs : List Char) : Bytes := cs.flatMap String.utf8EncodeChar

theorem encode_cons (c : Char) (cs : List Char) :
    encode (c :: cs) = String.utf8EncodeChar c ++ encode cs := rfl

theorem encode_append (cs cs' : List Char) : encode (cs ++ cs') = encode cs ++ encode cs' :=
  List.flatMap_append

theorem ofUInt8_eq_iff {b : UInt8} {c : Char} : Char.ofUInt8 b = c ↔ b.toNat = c.toNat :=
  Char.toNat_inj.symm

theorem encode_ascii {c : Char} (h : c.toNat < 128) :
    String.utf8EncodeChar c = [UInt8.ofNat c.toNat] ∧ Char.ofUInt8 (UInt8.ofNat c.toNat) = c := by
  constructor
  · exact if_pos (show c.val.toNat ≤ 127 from Nat.le_of_lt_succ h)
  · rw [ofUInt8_eq_iff, UInt8.toNat_ofNat']
    omega

theorem encode_other {c : Char} (h : ¬ c.toNat < 128) :
    String.utf8EncodeChar c ≠ [] ∧ ∀ b ∈ String.utf8EncodeChar c, 128 ≤ b.toNat := by
  have hv : ¬ c.val.toNat ≤ 127 := fun hle => h (Nat.lt_succ_of_le hle)
  have hmark : ∀ {v : Nat}, 128 ≤ v → v < 256 → 128 ≤ (UInt8.ofNat v).toNat := by
    intro v hlo hhi
    rw [UInt8.toNat_ofNat']
    omega
  unfold String.utf8EncodeChar
  dsimp only
  rw [if_neg hv]
  constructor
  · repeat' split
    all_goals exact List.cons_ne_nil _ _
  · repeat' split
    all_goals repeat refine List.forall_mem_cons.mpr ⟨hmark (by omega) (by omega), ?_⟩
    all_goals exact fun b hb => absurd hb List.not_mem_nil

theorem encode_cons_ne_nil (c : Char) (cs : List Char) : encode (c :: cs) ≠ [] := by
  rw [encode_cons]
  by_cases hc : c.toNat < 128
  · rw [(encode_ascii hc).1]
    exact List.cons_ne_nil _ _
  · exact List.append_ne_nil_of_left_ne_nil (encode_other hc).1 _

theorem encode_eq_cons {cs : List Char} {b : UInt8} {bs : Bytes} (hb : b.toNat < 128)
    (h : encode cs = b :: bs) : ∃ rest, cs = .ofUInt8 b :: rest ∧ encode rest = bs := by
  cases cs with
  | nil => cases h
  | cons c cs =>
    rw [encode_cons] at h
    by_cases hc : c.toNat < 128
    · obtain ⟨hone, hback⟩ := encode_ascii hc
      rw [hone, List.singleton_append, List.cons.injEq] at h
      obtain ⟨rfl, rfl⟩ := h
      exact ⟨cs, by rw [hback], rfl⟩
    · obtain ⟨hne, hmark⟩ := encode_other hc
      obtain ⟨b', bs', hb'⟩ := List.exists_cons_of_ne_nil hne
      rw [hb', List.cons_append, List.cons.injEq] at h
      have hlarge := hmark b' (by rw [hb']; exact List.mem_cons_self ..)
      rw [h.1] at hlarge
      exact absurd hb (Nat.not_lt.mpr hlarge)

theorem digit?_of_large {base : Nat} (hbase : base ≤ 16) {c : Char} (h : ¬ c.toNat < 128) :
    digit? base c = none := by
  rw [Option.eq_none_iff_forall_ne_some]
  intro d hd
  have := (isDigit_iff hbase).mp ((digit?_eq_some_iff hbase).mp hd)
  omega

theorem factor?_of_large {c : Char} (h : ¬ c.toNat < 128) : factor? c = none := by
  have hletters : factorLetters.all (fun c => decide (c.toNat < 128)) = true := by decide
  exact factor?_of_not_mem fun hc => h (of_decide_eq_true (List.all_eq_true.mp hletters c hc))

/-! ### the scanner against the parser -/

theorem word?_of_lt {n : Nat} (h : n < 0x10000000000000000) : word? n = some ⟨n, h⟩ := dif_pos h

theorem word?_of_le {n : Nat} (h : 0x10000000000000000 ≤ n) : word? n = none :=
  dif_neg (Nat.not_lt.mpr h)

section
variable {base : Nat} (hpos : 0 < base) (hbase : base ≤ 16)
include hpos hbase

theorem le_of_digitsFrom? {cs : List Char} {n m : Nat} (h : digitsFrom? base n cs = some m) :
    n ≤ m := by
  obtain ⟨ds, -, rfl⟩ := (digitsFrom?_eq_some_iff hbase).mp h
  exact Nat.le_add_right_of_le (Nat.le_mul_of_pos_right n (Nat.pow_pos hpos))

/-- a sum or a product that wraps stays too large, whatever digits follow -/
theorem accumulate?_encode (n : Address) (cs : List Char) :
    accumulate? base n (encode cs) = (digitsFrom? base n.val cs).bind word? := by
  induction cs generalizing n with
  | nil => exact (word?_of_lt n.isLt).symm
  | cons c cs ih =>
    rw [encode_cons, digitsFrom?]
    by_cases hc : c.toNat < 128
    · obtain ⟨hone, hback⟩ := encode_ascii hc
      rw [hone, List.singleton_append, accumulate?, hback]
      cases digit? base c with
      | none => rfl
      | some d =>
        dsimp only [Option.bind_eq_bind, Option.bind_some]
        by_cases hfits : n.val * base + d < 0x10000000000000000
        · rw [word?_of_lt (Nat.lt_of_le_of_lt (Nat.le_add_right ..) hfits), Option.bind_some,
            word?_of_lt hfits, Option.bind_some, ih]
        · have hnone : ((word? (n.val * base)).bind fun scaled => word? (scaled.val + d)) = none := by
            by_cases hscaled : n.val * base < 0x10000000000000000
            · rw [word?_of_lt hscaled, Option.bind_some, word?_of_le (Nat.not_lt.mp hfits)]
            · rw [word?_of_le (Nat.not_lt.mp hscaled), Option.bind_none]
          rw [← Option.bind_assoc, hnone, Option.bind_none]
          cases hm : digitsFrom? base (n.val * base + d) cs with
          | none => rfl
          | some m =>
            have hle := le_of_digitsFrom? hpos hbase hm
            exact (word?_of_le (by omega)).symm
    · obtain ⟨hne, hmark⟩ := encode_other hc
      obtain ⟨b, bs, hb⟩ := List.exists_cons_of_ne_nil hne
      have hlarge : ¬ (Char.ofUInt8 b).toNat < 128 :=
        Nat.not_lt.mpr (hmark b (by rw [hb]; exact List.mem_cons_self ..))
      rw [hb, List.cons_append, accumulate?, digit?_of_large hbase hlarge, digit?_of_large hbase hc]
      rfl

theorem scanDigits?_encode (cs : List Char) :
    scanDigits? base (encode cs) = (digits? base cs).bind word? := by
  cases cs with
  | nil => rfl
  | cons c cs =>
    have hscan : scanDigits? base (encode (c :: cs)) = accumulate? base .zero (encode (c :: cs)) := by
      obtain ⟨b, bs, hb⟩ := List.exists_cons_of_ne_nil (encode_cons_ne_nil c cs)
      rw [hb]
      rfl
    rw [hscan, accumulate?_encode hpos hbase]
    rfl

theorem scanSigned?_encode (cs : List Char) :
    scanSigned? base (encode cs) = (signed? base cs).bind word? := by
  unfold scanSigned?
  split
  · rename_i bs hbs
    obtain ⟨rest, rfl, rfl⟩ := encode_eq_cons (by decide) hbs
    exact scanDigits?_encode hpos hbase rest
  · rename_i hno
    unfold signed?
    split
    · exact absurd rfl (hno _)
    · exact scanDigits?_encode hpos hbase cs

end

theorem scanNumber?_encode (cs : List Char) :
    scanNumber? (encode cs) = (number? cs).bind word? := by
  have hhex : ∀ cs, scanSigned? 16 (encode cs) = (signed? 16 cs).bind word? :=
    scanSigned?_encode (by decide) (by decide)
  unfold scanNumber?
  split
  · rename_i bs hbs
    obtain ⟨rest, rfl, hrest⟩ := encode_eq_cons (by decide) hbs
    obtain ⟨rest', rfl, rfl⟩ := encode_eq_cons (by decide) hrest
    exact hhex rest'
  · rename_i bs hbs
    obtain ⟨rest, rfl, hrest⟩ := encode_eq_cons (by decide) hbs
    obtain ⟨rest', rfl, rfl⟩ := encode_eq_cons (by decide) hrest
    exact hhex rest'
  · rename_i hno hno'
    unfold number?
    split
    · exact absurd rfl (hno _)
    · exact absurd rfl (hno' _)
    · exact scanSigned?_encode (by decide) (by decide) cs

theorem scanUnscaled_encode (cs : List Char) :
    scanUnscaled (encode cs) = (encode (unscaled cs).1, (unscaled cs).2) := by
  rcases cs.eq_nil_or_concat with rfl | ⟨init, c, rfl⟩
  · rfl
  · have hlast : encode [c] = String.utf8EncodeChar c := List.append_nil _
    unfold scanUnscaled unscaled
    rw [List.concat_eq_append, encode_append, hlast, List.getLast?_concat, Option.bind_some]
    by_cases hc : c.toNat < 128
    · obtain ⟨hone, hback⟩ := encode_ascii hc
      rw [hone, List.getLast?_concat, Option.bind_some, hback]
      cases factor? c with
      | none =>
        dsimp only
        rw [encode_append, hlast, hone]
      | some f =>
        dsimp only
        rw [List.dropLast_concat, List.length_append, List.length_singleton, Nat.add_sub_cancel,
          List.take_left]
    · obtain ⟨hne, hmark⟩ := encode_other hc
      have hlarge : ¬ (Char.ofUInt8 ((String.utf8EncodeChar c).getLast hne)).toNat < 128 :=
        Nat.not_lt.mpr (hmark _ (List.getLast_mem hne))
      rw [List.getLast?_append_of_ne_nil _ hne, List.getLast?_eq_some_getLast hne, Option.bind_some,
        factor?_of_large hlarge, factor?_of_large hc]
      dsimp only
      rw [encode_append, hlast]

/-- **The parser on bytes and words gives the same answers.** -/
theorem scan?_encode (cs : List Char) : scan? (encode cs) = parse? cs := by
  unfold scan? parse?
  rw [scanUnscaled_encode, scanNumber?_encode]
  cases hn : number? (unscaled cs).1 with
  | none => rfl
  | some n =>
    have hden : Denotes cs n (unscaled cs).2 := denotes_iff.mpr ⟨hn, rfl⟩
    rw [Option.bind_some]
    by_cases hlt : n < 0x10000000000000000
    · rw [word?_of_lt hlt]
      rfl
    · -- a number that does not fit does not fit with a factor either
      have hscaled : ¬ n * (unscaled cs).2 < 0x10000000000000000 := fun h => hlt (hden.number_lt h)
      rw [word?_of_le (Nat.not_lt.mp hlt), Option.bind_none]
      dsimp only
      rw [dif_neg hscaled]

/-! ## all texts -/

/-- **A text is a size exactly if it is of the grammar and fits.**  Every address that is written out
is read back, and no number that is too large is read as another one. -/
theorem parse?_exact :
    (∀ (v : String) (a : Address), parse? v.toList = some a ↔
      ∃ n f, Denotes v.toList n f ∧ n < 2 ^ 64 ∧ n * f < 2 ^ 64 ∧ a.val = n * f)
    ∧ (∀ (v : String) (n f : Nat), Denotes v.toList n f → 2 ^ 64 ≤ n * f → parse? v.toList = none)
    ∧ (∀ (a : Address) (zeros : Nat),
        parse? (List.replicate zeros '0' ++ Nat.toDigits 10 a.val) = some a
        ∧ ∀ x, x = 'x' ∨ x = 'X' →
          parse? ('0' :: x :: (List.replicate zeros '0' ++ Nat.toDigits 16 a.val)) = some a
          ∧ parse? ('0' :: x :: (List.replicate zeros '0' ++ (Nat.toDigits 16 a.val).map Char.toUpper))
            = some a)
    ∧ ∀ v : String, scan? (Bytes.ofString v) = parse? v.toList := by
  have hread : ∀ {cs : List Char} {a : Address}, Number cs a.val → parse? cs = some a := by
    intro cs a h
    have ha : a.val * 1 = a.val := Nat.mul_one _
    exact parse?_eq_some_iff.mpr ⟨a.val, 1, ⟨cs, [], (List.append_nil cs).symm, h, .none⟩,
      by rw [ha]; exact a.isLt, ha.symm⟩
  refine ⟨fun v a => ?_, fun v n f hden hle => ?_, fun a zeros => ⟨?_, fun x hx => ⟨?_, ?_⟩⟩,
    fun v => ?_⟩
  · rw [parse?_eq_some_iff]
    constructor
    · rintro ⟨n, f, hden, hlt, ha⟩
      exact ⟨n, f, hden, hden.number_lt hlt, hlt, ha⟩
    · rintro ⟨n, f, hden, -, hlt, ha⟩
      exact ⟨n, f, hden, hlt, ha⟩
  · rw [Option.eq_none_iff_forall_ne_some]
    intro a ha
    obtain ⟨n', f', hden', hlt, -⟩ := parse?_eq_some_iff.mp ha
    obtain ⟨rfl, rfl⟩ := hden.unique hden'
    omega
  · exact hread (.decimal (.bare ((numeral_toDigits (by decide) a.val).zeros (by decide) zeros)))
  · exact hread (.hex hx (.bare ((numeral_toDigits (by decide) a.val).zeros (by decide) zeros)))
  · exact hread (.hex hx (.bare
      (((numeral_toDigits (by decide) a.val).upper (by decide)).zeros (by decide) zeros)))
  · rw [Bytes.ofString_eq]
    exact scan?_encode v.toList

/-- fifteen times `2 ^ 10` with all that may be written, the last address behind zeros, and the same
number with a factor, which does not fit -/
theorem lastAddress_exact : parse? "0X+0fK".toList = some 0x3C00
    ∧ parse? ('0' :: 'x' :: (List.replicate 3 '0' ++ Nat.toDigits 16 Address.top.val)) = some .top
    ∧ Denotes "18446744073709551615k".toList 0xFFFFFFFFFFFFFFFF (2 ^ 10)
    ∧ parse? "18446744073709551615k".toList = none
    ∧ scan? (Bytes.ofString "18446744073709551615k") = none := by
  obtain ⟨hgrammar, hrefused, hread, hbytes⟩ := parse?_exact
  have hsmall : Denotes "0X+0fK".toList 15 (2 ^ 10) := denotes_iff.mpr (by decide +kernel)
  have hlarge : Denotes "18446744073709551615k".toList 0xFFFFFFFFFFFFFFFF (2 ^ 10) :=
    denotes_iff.mpr (by decide +kernel)
  have hnone := hrefused _ _ _ hlarge (by decide)
  exact ⟨(hgrammar _ _).mpr ⟨15, 2 ^ 10, hsmall, by decide, by decide, rfl⟩,
    ((hread .top 3).2 'x' (.inl rfl)).1, hlarge, hnone, (hbytes _).trans hnone⟩

end ChainBoot.Size
