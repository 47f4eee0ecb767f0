import ChainBoot.Proofs.Range

/-!
# Ranges by start and length

A machine keeps a range as two words, its first byte and its length, and works out the end by adding
them.  `Words` are these two, with the operations on ranges as a machine does them: where a sum or a
difference is taken without a check, the operation has no result if it wraps.  `Composed` is any
composition of the operations that make ranges, from any words.

* `words?_eq`         a composition never wraps, and its two words are those of the range that it
                      stands for;
* `composed_exact`    what this says about the end, about the bytes of a range, and about the tests.
-/

namespace ChainBoot

namespace Address

theorem toUInt64_lt_iff (a b : Address) : a.toUInt64 < b.toUInt64 ↔ a.val < b.val := by
  rw [UInt64.lt_iff_toNat_lt, toNat_toUInt64, toNat_toUInt64]

theorem toUInt64_le_iff (a b : Address) : a.toUInt64 ≤ b.toUInt64 ↔ a.val ≤ b.val := by
  rw [UInt64.le_iff_toNat_le, toNat_toUInt64, toNat_toUInt64]

end Address

namespace Range

/-- a range by its first byte and its length -/
structure Words where
  start : UInt64
  len : UInt64
deriving DecidableEq

/-- the two words of a range -/
def words (r : Range) : Words := ⟨r.start.toUInt64, .ofNat r.size⟩

theorem start_words (r : Range) : r.words.start = r.start.toUInt64 := rfl

theorem toNat_start_words (r : Range) : r.words.start.toNat = r.start.val :=
  Address.toNat_toUInt64 r.start

theorem toNat_len_words (r : Range) : r.words.len.toNat = r.size := by
  have hstop := r.stop.isLt
  show (UInt64.ofNat r.size).toNat = r.size
  unfold size
  rw [UInt64.toNat_ofNat']
  omega

theorem start_add_len_words (r : Range) :
    r.words.start.toNat + r.words.len.toNat = r.stop.val := by
  have hle : r.start.val ≤ r.stop.val := r.start_le_stop
  rw [toNat_start_words, toNat_len_words, size]
  omega

namespace Words

variable {r o : Range} {w : Words}

theorem eq_words (hstart : w.start.toNat = r.start.val)
    (hstop : w.start.toNat + w.len.toNat = r.stop.val) : w = r.words := by
  obtain ⟨start, len⟩ := w
  have hsum := start_add_len_words r
  have hfirst := toNat_start_words r
  dsimp only at hstart hstop
  have h1 : start = r.words.start := UInt64.toNat.inj (by omega)
  have h2 : len = r.words.len := UInt64.toNat.inj (by omega)
  rw [h1, h2]

/-! ## arithmetic of words -/

/-- a sum that is taken without a check -/
def plus? (a b : UInt64) : Option UInt64 :=
  if a.toNat + b.toNat < 0x10000000000000000 then some (a + b) else none

/-- a difference that is taken without a check -/
def minus? (a b : UInt64) : Option UInt64 := if b ≤ a then some (a - b) else none

/-- a sum that stops at the last word -/
def plusCut (a b : UInt64) : UInt64 := (plus? a b).getD 0xFFFFFFFFFFFFFFFF

/-- a difference that stops at zero -/
def minusCut (a b : UInt64) : UInt64 := (minus? a b).getD 0

/-! ## operations -/

/-- the end, which the code takes to be a word -/
def stop? (w : Words) : Option UInt64 := plus? w.start w.len

def isEmpty (w : Words) : Bool := w.len == 0

def span? (start len : UInt64) : Option Words := do
  let maxLen ← minus? 0xFFFFFFFFFFFFFFFF start
  return ⟨start, if maxLen < len then maxLen else len⟩

def inclusive? (first last : UInt64) : Option Words :=
  if last < first then span? first 0
  else do
    let gap ← minus? last first
    span? first (plusCut gap 1)

def between? (start stop : UInt64) : Option Words := span? start (minusCut stop start)

def overlaps? (r o : Words) : Option Bool :=
  if r.isEmpty || o.isEmpty then some false
  else do
    let oStop ← o.stop?
    if r.start < oStop then
      let rStop ← r.stop?
      return decide (o.start < rStop)
    else return false

def contains? (r o : Words) : Option Bool :=
  if r.start ≤ o.start then do
    let oStop ← o.stop?
    let rStop ← r.stop?
    return decide (oStop ≤ rStop)
  else some false

def below? (r : Words) (ceiling : UInt64) : Option Words :=
  if ceiling ≤ r.start then span? r.start 0
  else do
    let stop ← r.stop?
    if ceiling < stop then between? r.start ceiling else some r

def exclude? (r o : Words) : Option Words := do
  let meet ← r.overlaps? o
  if meet then
    let oStop ← o.stop?
    let rStop ← r.stop?
    if o.start ≤ r.start then between? oStop rStop
    else if rStop ≤ oStop then between? r.start o.start
    else
      let front ← between? r.start o.start
      let back ← between? oStop rStop
      return if front.len < back.len then back else front
  else some r

/-! ## none of them wraps -/

theorem plus?_eq_some {a b : UInt64} (h : a.toNat + b.toNat < 0x10000000000000000) :
    ∃ s, plus? a b = some s ∧ s.toNat = a.toNat + b.toNat :=
  ⟨a + b, if_pos h, (UInt64.toNat_add a b).trans (Nat.mod_eq_of_lt h)⟩

theorem minus?_eq_some {a b : UInt64} (h : b.toNat ≤ a.toNat) :
    ∃ d, minus? a b = some d ∧ d.toNat = a.toNat - b.toNat :=
  have hle : b ≤ a := UInt64.le_iff_toNat_le.mpr h
  ⟨a - b, if_pos hle, UInt64.toNat_sub_of_le a b hle⟩

theorem toNat_plusCut (a b : UInt64) :
    (plusCut a b).toNat = min (a.toNat + b.toNat) 0xFFFFFFFFFFFFFFFF := by
  unfold plusCut
  by_cases h : a.toNat + b.toNat < 0x10000000000000000
  · obtain ⟨s, hs, hval⟩ := plus?_eq_some h
    rw [hs, Option.getD_some, hval]
    omega
  · rw [plus?, if_neg h, Option.getD_none]
    show 0xFFFFFFFFFFFFFFFF = _
    omega

theorem toNat_minusCut (a b : UInt64) : (minusCut a b).toNat = a.toNat - b.toNat := by
  unfold minusCut
  by_cases h : b.toNat ≤ a.toNat
  · obtain ⟨d, hd, hval⟩ := minus?_eq_some h
    rw [hd, Option.getD_some, hval]
  · rw [minus?, if_neg (mt UInt64.le_iff_toNat_le.mp h), Option.getD_none]
    show 0 = _
    omega

theorem stop?_words (r : Range) : r.words.stop? = some r.stop.toUInt64 := by
  have hsum := start_add_len_words r
  have hlt := r.stop.isLt
  obtain ⟨s, hs, hval⟩ := plus?_eq_some (a := r.words.start) (b := r.words.len) (by omega)
  rw [stop?, hs]
  exact congrArg some (UInt64.toNat.inj (by rw [hval, hsum, Address.toNat_toUInt64]))

theorem isEmpty_words (r : Range) : r.words.isEmpty = r.isEmpty := by
  rw [Bool.eq_iff_iff, Range.isEmpty_iff, ← toNat_len_words, isEmpty, beq_iff_eq]
  exact UInt64.toNat_inj.symm

theorem span?_eq (a n : UInt64) : span? a n = some (span (.ofUInt64 a) n.toNat).words := by
  have ha : a.toNat ≤ 0xFFFFFFFFFFFFFFFF := Nat.le_of_lt_succ a.toNat_lt
  obtain ⟨d, hd, hval⟩ := minus?_eq_some (a := 0xFFFFFFFFFFFFFFFF) (b := a) ha
  have hval : d.toNat = 0xFFFFFFFFFFFFFFFF - a.toNat := hval
  have hlen : (if d < n then d else n).toNat = min d.toNat n.toNat := by
    split
    · rename_i hlt
      have := UInt64.lt_iff_toNat_lt.mp hlt
      omega
    · rename_i hnot
      have := mt UInt64.lt_iff_toNat_lt.mpr hnot
      omega
  unfold span?
  rw [hd]
  refine congrArg some (eq_words rfl ?_)
  show a.toNat + (if d < n then d else n).toNat = min (a.toNat + n.toNat) 0xFFFFFFFFFFFFFFFF
  omega

theorem between?_eq (a b : UInt64) :
    between? a b = some (between (.ofUInt64 a) (.ofUInt64 b)).words := by
  have ha := a.toNat_lt
  have hb := b.toNat_lt
  unfold between?
  rw [span?_eq, toNat_minusCut]
  refine congrArg (fun r => some (words r)) (ext_of_bounds ?_ ?_)
  · rw [start_between, start_span]
  · rw [stop_between, stop_span]
    show min (a.toNat + (b.toNat - a.toNat)) 0xFFFFFFFFFFFFFFFF = max a.toNat b.toNat
    omega

theorem inclusive?_eq (a b : UInt64) :
    inclusive? a b = some (inclusive (.ofUInt64 a) (.ofUInt64 b)).words := by
  have hbounds : ∀ n : UInt64, min (a.toNat + n.toNat) 0xFFFFFFFFFFFFFFFF
        = min (a.toNat + (b.toNat + 1 - a.toNat)) 0xFFFFFFFFFFFFFFFF →
      span (.ofUInt64 a) n.toNat = inclusive (.ofUInt64 a) (.ofUInt64 b) :=
    fun n hn => ext_of_bounds rfl hn
  unfold inclusive?
  by_cases h : b < a
  · have hlt := UInt64.lt_iff_toNat_lt.mp h
    rw [if_pos h, span?_eq, hbounds]
    show min (a.toNat + 0) 0xFFFFFFFFFFFFFFFF = _
    omega
  · have hle : a.toNat ≤ b.toNat := Nat.not_lt.mp (mt UInt64.lt_iff_toNat_lt.mpr h)
    obtain ⟨gap, hgap, hval⟩ := minus?_eq_some hle
    have hcut : (plusCut gap 1).toNat = min (gap.toNat + 1) 0xFFFFFFFFFFFFFFFF := toNat_plusCut gap 1
    rw [if_neg h, hgap, Option.bind_eq_bind, Option.bind_some, span?_eq, hbounds]
    omega

theorem overlaps?_words (r o : Range) : r.words.overlaps? o.words = some (r.overlaps o) := by
  unfold overlaps?
  rw [isEmpty_words, isEmpty_words]
  by_cases hempty : (r.isEmpty || o.isEmpty) = true
  · rw [if_pos hempty]
    rcases Bool.or_eq_true_iff.mp hempty with hr | ho
    · rw [not_overlaps_of_size_eq_zero ((isEmpty_iff r).mp hr)]
    · rw [overlaps_comm, not_overlaps_of_size_eq_zero ((isEmpty_iff o).mp ho)]
  · obtain ⟨hr, ho⟩ := not_or.mp (mt Bool.or_eq_true_iff.mpr hempty)
    rw [isEmpty_iff, size] at hr ho
    rw [if_neg hempty]
    have hboth : r.overlaps o
        = (decide (r.start.val < o.stop.val) && decide (o.start.val < r.stop.val)) := by
      rw [Bool.eq_iff_iff, overlaps_eq_true_iff, Bool.and_eq_true_iff, decide_eq_true_iff,
        decide_eq_true_iff]
      omega
    simp only [stop?_words, start_words, Address.toUInt64_lt_iff, Option.bind_eq_bind,
      Option.bind_some, Option.pure_def, hboth]
    by_cases hlt : r.start.val < o.stop.val <;> simp [hlt]

theorem contains?_words (r o : Range) : r.words.contains? o.words = some (r.contains o) := by
  unfold contains? contains
  simp only [stop?_words, start_words, Address.toUInt64_le_iff, Option.bind_eq_bind,
    Option.bind_some, Option.pure_def, Fin.le_def]
  by_cases hle : r.start.val ≤ o.start.val <;> simp [hle]

theorem between?_bounds (a b : Address) :
    between? a.toUInt64 b.toUInt64 = some (between a b).words := by
  rw [between?_eq, Address.ofUInt64_toUInt64, Address.ofUInt64_toUInt64]

theorem below?_words (r : Range) (c : Address) :
    r.words.below? c.toUInt64 = some (r.below c).words := by
  have hle : r.start.val ≤ r.stop.val := r.start_le_stop
  unfold below?
  simp only [stop?_words, start_words, Address.toUInt64_le_iff, Address.toUInt64_lt_iff,
    Option.bind_eq_bind, Option.bind_some]
  by_cases hunder : c.val ≤ r.start.val
  · rw [if_pos hunder, span?_eq, Address.ofUInt64_toUInt64]
    refine congrArg (fun r => some (words r)) (ext_of_bounds ?_ ?_)
    · rw [start_span, start_below]
    · have hr := r.stop.isLt
      rw [stop_span, stop_below]
      show min (r.start.val + 0) 0xFFFFFFFFFFFFFFFF = _
      omega
  · rw [if_neg hunder]
    unfold below
    by_cases hover : c.val < r.stop.val
    · have hnot : ¬ r.stop ≤ c := Nat.not_le.mpr hover
      rw [if_pos hover, if_neg hnot, between?_bounds]
    · have hle : r.stop ≤ c := Nat.not_lt.mp hover
      rw [if_neg hover, if_pos hle]

theorem exclude?_words (r o : Range) : r.words.exclude? o.words = some (r.exclude o).words := by
  unfold exclude?
  rw [overlaps?_words, Option.bind_eq_bind, Option.bind_some]
  cases hmeet : r.overlaps o with
  | false => rw [exclude_of_not_overlaps hmeet, if_neg Bool.false_ne_true]
  | true =>
    unfold exclude
    rw [if_pos rfl, if_pos hmeet]
    simp only [stop?_words, start_words, Address.toUInt64_le_iff, Option.bind_eq_bind,
      Option.bind_some, between?_bounds, UInt64.lt_iff_toNat_lt, toNat_len_words, Fin.le_def]
    split
    · rfl
    · split
      · rfl
      · split <;> rfl

end Words

/-! ## compositions -/

/-- a range that is made from words by any composition of the operations -/
inductive Composed where
  | span (start len : UInt64)
  | inclusive (first last : UInt64)
  | between (start stop : UInt64)
  | under (r : Composed) (ceiling : UInt64)
  | without (r o : Composed)

namespace Composed

/-- what a machine makes of it -/
def words? : Composed → Option Words
  | span start len => Words.span? start len
  | inclusive first last => Words.inclusive? first last
  | between start stop => Words.between? start stop
  | under r ceiling => do (← r.words?).below? ceiling
  | without r o => do (← r.words?).exclude? (← o.words?)

/-- the range that it stands for -/
def range : Composed → Range
  | span start len => .span (.ofUInt64 start) len.toNat
  | inclusive first last => .inclusive (.ofUInt64 first) (.ofUInt64 last)
  | between start stop => .between (.ofUInt64 start) (.ofUInt64 stop)
  | under r ceiling => r.range.below (.ofUInt64 ceiling)
  | without r o => r.range.exclude o.range

/-- the byte is one of the `len` bytes from `start` on -/
def Covers (c : Composed) (x : Nat) : Prop :=
  ∃ w, c.words? = some w ∧ w.start.toNat ≤ x ∧ x < w.start.toNat + w.len.toNat

/-- the tests of a machine, on what it makes of two compositions -/
def overlaps? (c d : Composed) : Option Bool := do (← c.words?).overlaps? (← d.words?)

def contains? (c d : Composed) : Option Bool := do (← c.words?).contains? (← d.words?)

/-- **No composition wraps**, by induction on it -/
theorem words?_eq (c : Composed) : c.words? = some c.range.words := by
  induction c with
  | span start len => exact Words.span?_eq start len
  | inclusive first last => exact Words.inclusive?_eq first last
  | between start stop => exact Words.between?_eq start stop
  | under r ceiling ih =>
    rw [words?, ih, Option.bind_eq_bind, Option.bind_some, range, ← Words.below?_words,
      Address.toUInt64_ofUInt64]
  | without r o ihr iho =>
    rw [words?, ihr, iho, Option.bind_eq_bind, Option.bind_some, Option.bind_some, range,
      Words.exclude?_words]

theorem covers_iff (c : Composed) (x : Nat) : c.Covers x ↔ x ∈ c.range := by
  unfold Covers
  rw [words?_eq, mem_iff, ← start_add_len_words, ← toNat_start_words]
  constructor
  · rintro ⟨w, hw, hx⟩
    cases hw
    exact hx
  · exact fun hx => ⟨_, rfl, hx⟩

theorem overlaps?_eq (c d : Composed) : c.overlaps? d = some (c.range.overlaps d.range) := by
  rw [overlaps?, words?_eq, words?_eq]
  exact Words.overlaps?_words c.range d.range

theorem contains?_eq (c d : Composed) : c.contains? d = some (c.range.contains d.range) := by
  rw [contains?, words?_eq, words?_eq]
  exact Words.contains?_words c.range d.range

/-- **Ranges that are made from words by any operations keep their ends below the last word, and the
tests and the operations say of their bytes what they should.** -/
theorem composed_exact :
    (∀ c : Composed, ∃ w stop, c.words? = some w ∧ w = c.range.words
      ∧ w.start.toNat + w.len.toNat ≤ 0xFFFFFFFFFFFFFFFF
      ∧ w.stop? = some stop ∧ stop.toNat = w.start.toNat + w.len.toNat)
    ∧ (∀ start len x, (span start len).Covers x
      ↔ start.toNat ≤ x ∧ x < min (start.toNat + len.toNat) 0xFFFFFFFFFFFFFFFF)
    ∧ (∀ c d : Composed, ∃ b, c.overlaps? d = some b ∧ d.overlaps? c = some b
      ∧ b = c.range.overlaps d.range ∧ (b = true ↔ ∃ x, c.Covers x ∧ d.Covers x))
    ∧ (∀ c d : Composed, ∃ b, c.contains? d = some b ∧ b = c.range.contains d.range
      ∧ ((∃ x, d.Covers x) → (b = true ↔ ∀ x, d.Covers x → c.Covers x)))
    ∧ ∀ (c : Composed) ceiling x, (under c ceiling).Covers x ↔ c.Covers x ∧ x < ceiling.toNat := by
  simp only [covers_iff]
  refine ⟨fun c => ?_, fun start len x => ?_, fun c d => ?_, fun c d => ?_, fun c ceiling x => ?_⟩
  · have hsum := start_add_len_words c.range
    have hlt := c.range.stop.isLt
    refine ⟨_, _, words?_eq c, rfl, by omega, Words.stop?_words c.range, ?_⟩
    rw [Address.toNat_toUInt64, hsum]
  · exact mem_span (.ofUInt64 start) len.toNat x
  · refine ⟨_, overlaps?_eq c d, ?_, rfl, overlaps_iff c.range d.range⟩
    rw [overlaps?_eq, overlaps_comm]
  · refine ⟨_, contains?_eq c d, rfl, fun ⟨x, hx⟩ => ?_⟩
    have hnonempty : ¬ ∀ x : Nat, x ∉ d.range := fun hnone => hnone x hx
    rw [contains_iff_subset]
    exact and_iff_left fun hnone => absurd hnone hnonempty
  · exact mem_below c.range (.ofUInt64 ceiling) x

/-- the last two pages of memory and one behind it, of which the first one is taken out -/
def lastPages : Composed := span 0xFFFFFFFFFFFFE000 0x3000

def lastPage : Composed := without lastPages (inclusive 0xFFFFFFFFFFFFE000 0xFFFFFFFFFFFFEFFF)

/-- what is left ends in front of the last byte, as does the range that it is a part of -/
theorem lastPage_exact :
    (∃ w, lastPage.words? = some w ∧ w.start = 0xFFFFFFFFFFFFF000 ∧ w.len = 0xFFF
      ∧ w.stop? = some 0xFFFFFFFFFFFFFFFF)
    ∧ lastPage.Covers 0xFFFFFFFFFFFFFFFE ∧ ¬ lastPages.Covers 0xFFFFFFFFFFFFFFFF
    ∧ lastPages.overlaps? lastPage = some true
    ∧ lastPages.contains? lastPage = some true ∧ ∀ x, lastPage.Covers x → lastPages.Covers x := by
  obtain ⟨-, hspan, hoverlaps, hcontains, -⟩ := composed_exact
  have hcovers : lastPage.Covers 0xFFFFFFFFFFFFFFFE := (covers_iff ..).mpr (by decide +kernel)
  have hin : lastPages.Covers 0xFFFFFFFFFFFFFFFE := (covers_iff ..).mpr (by decide +kernel)
  obtain ⟨meet, hmeet, -, -, hshared⟩ := hoverlaps lastPages lastPage
  obtain ⟨inside, hinside, hvalue, hsubset⟩ := hcontains lastPages lastPage
  have hyes : inside = true := hvalue.trans (by decide +kernel)
  refine ⟨⟨lastPage.range.words, words?_eq lastPage, by decide +kernel⟩, hcovers, ?_, ?_, ?_, ?_⟩
  · intro h
    obtain ⟨-, hlt⟩ := (hspan ..).mp h
    omega
  · rw [hmeet, hshared.mpr ⟨_, hin, hcovers⟩]
  · rw [hinside, hyes]
  · exact (hsubset ⟨_, hcovers⟩).mp hyes

end Composed

end Range

end ChainBoot
