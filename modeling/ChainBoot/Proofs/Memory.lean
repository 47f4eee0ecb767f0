import ChainBoot.Memory
import ChainBoot.Proofs.Range

/-!
# Memory byte by byte

`Memory.byte?` is the byte at an address.  In a memory with disjoint banks it says all about the
accesses: a read of a range that some bank contains gives its bytes (`read_eq_ok_iff`), and a
write changes the bytes written alone (`write_spec`).

* `Memory.Readable`   some bank contains the range;
* `Memory.Agree`      two memories with the same bytes in a range;
* `Memory.Frame`      two states of a memory that differ within given ranges at most;
* `Memory.copy_spec`  what a copy leaves.
-/

namespace ChainBoot

/-! ## banks -/

namespace Bank

/-- the byte of a bank at an address, if the bank has that address -/
def byte? (b : Bank) (x : Nat) : Option UInt8 :=
  if x ∈ b.range then b.data[x - b.base.val]? else none

theorem stop_range_le (b : Bank) : b.range.stop.val ≤ b.base.val + b.data.size := by
  show min _ _ ≤ _
  omega

theorem lt_size_of_mem {b : Bank} {x : Nat} (h : x ∈ b.range) : x - b.base.val < b.data.size := by
  have hstop := b.stop_range_le
  have hstart : b.base.val ≤ x := h.1
  rw [Range.mem_iff] at h
  omega

theorem read_eq_window (b : Bank) (r : Range) :
    b.read r = (b.data.toList.drop (r.start.val - b.base.val)).take
      (r.stop.val - b.base.val - (r.start.val - b.base.val)) := by
  unfold read
  rw [Array.toList_extract, List.extract_eq_take_drop]

theorem length_read {b : Bank} {r : Range} (h : b.range.contains r = true) :
    (b.read r).length = r.size := by
  have hstop := b.stop_range_le
  have hr : r.start.val ≤ r.stop.val := r.start_le_stop
  obtain ⟨hlo, hhi⟩ := (Range.contains_iff ..).mp h
  have hlo : b.base.val ≤ r.start.val := hlo
  rw [read_eq_window, List.length_take, List.length_drop, Array.length_toList]
  unfold Range.size
  omega

theorem getElem?_read {b : Bank} {r : Range} (h : b.range.contains r = true) {i : Nat}
    (hi : i < r.size) : (b.read r)[i]? = b.data[r.start.val + i - b.base.val]? := by
  obtain ⟨hlo, hhi⟩ := (Range.contains_iff ..).mp h
  have hlo : b.base.val ≤ r.start.val := hlo
  unfold Range.size at hi
  rw [read_eq_window, Bytes.getElem?_window, if_pos (by omega), Array.getElem?_toList]
  congr 1
  omega

theorem toList_write {b : Bank} {a : Address} (new : Bytes) :
    (b.write a new).data.toList = Bytes.overwrite b.data.toList (a.val - b.base.val) new := by
  unfold write Bytes.overwrite
  simp only [Array.toList_append, Array.toList_extract, List.extract_eq_take_drop, Nat.sub_zero,
    List.drop_zero]
  have hlen : (b.data.toList.drop (a.val - b.base.val + new.length)).length
      = b.data.size - (a.val - b.base.val + new.length) := by
    rw [List.length_drop, Array.length_toList]
  rw [List.take_of_length_le (Nat.le_of_eq hlen)]

section
variable {b : Bank} {a : Address} {new : Bytes}
  (hin : b.range.contains (.span a new.length) = true)
  (htop : a.val + new.length ≤ 0xFFFFFFFFFFFFFFFF)
include hin htop

theorem write_fits : b.base.val ≤ a.val
    ∧ a.val - b.base.val + new.length ≤ b.data.toList.length := by
  have hstop := b.stop_range_le
  have hsize : b.data.toList.length = b.data.size := Array.length_toList
  obtain ⟨hlo, hhi⟩ := (Range.contains_iff ..).mp hin
  have hlo : b.base.val ≤ a.val := hlo
  rw [Range.stop_span_of_le htop] at hhi
  omega

theorem range_write : (b.write a new).range = b.range := by
  have hsize : (b.write a new).data.size = b.data.size := by
    rw [← Array.length_toList, toList_write, Bytes.length_overwrite (write_fits hin htop).2,
      Array.length_toList]
  show Range.span b.base (b.write a new).data.size = Range.span b.base b.data.size
  rw [hsize]

theorem byte?_write (x : Nat) :
    (b.write a new).byte? x = if x ∈ Range.span a new.length then new[x - a.val]? else b.byte? x := by
  obtain ⟨hbase, hroom⟩ := write_fits hin htop
  have hget := Bytes.getElem?_overwrite hroom (x - b.base.val)
  have hold : b.data.toList[x - b.base.val]? = b.data[x - b.base.val]? := Array.getElem?_toList
  rw [← toList_write, Array.getElem?_toList, hold] at hget
  unfold byte?
  rw [range_write hin htop]
  show (if x ∈ b.range then (b.write a new).data[x - b.base.val]? else none) = _
  by_cases hx : x ∈ b.range
  · have hlo : b.base.val ≤ x := hx.1
    rw [if_pos hx, if_pos hx, hget]
    by_cases hnew : x ∈ Range.span a new.length
    · have hmem := (Range.mem_span_of_le htop x).mp hnew
      have hidx : x - b.base.val - (a.val - b.base.val) = x - a.val := by omega
      rw [if_pos hnew, if_pos (by omega), hidx]
    · have hmem := (Range.mem_span_of_le htop x).not.mp hnew
      rw [if_neg hnew, if_neg (by omega)]
  · rw [if_neg hx, if_neg hx, if_neg]
    intro hnew
    exact hx (Range.mem_of_contains hin hnew)

end

end Bank

namespace Memory

/-! ## the byte at an address -/

/-- the byte at an address, if some bank has that address -/
def byte? (m : Memory) (x : Nat) : Option UInt8 := m.banks.findSome? fun b => b.byte? x

/-- the ranges of the banks; no write changes them -/
def layout (m : Memory) : List Range := m.banks.map Bank.range

/-- some bank contains the range -/
def Readable (m : Memory) (r : Range) : Prop := ∃ q ∈ m.layout, q.contains r = true

theorem disjoint_iff (m : Memory) :
    m.Disjoint ↔ m.layout.Pairwise fun q s => q.overlaps s = false := by
  unfold Disjoint layout
  rw [List.pairwise_map]

instance (m : Memory) : Decidable m.Disjoint :=
  inferInstanceAs (Decidable (m.banks.Pairwise fun b c => b.range.overlaps c.range = false))

/-- an address of a bank belongs to no other bank -/
theorem byte?_of_mem {m : Memory} (hm : m.Disjoint) {b : Bank} (hb : b ∈ m.banks) {x : Nat}
    (hx : x ∈ b.range) : m.byte? x = b.byte? x := by
  unfold Disjoint at hm
  unfold byte?
  generalize m.banks = bs at hm hb
  induction bs with
  | nil => cases hb
  | cons c cs ih =>
    obtain ⟨hc, hcs⟩ := List.pairwise_cons.mp hm
    rw [List.findSome?_cons]
    rcases List.mem_cons.mp hb with rfl | hb
    · obtain ⟨v, hv⟩ : ∃ v, b.byte? x = some v := by
        unfold Bank.byte?
        rw [if_pos hx]
        exact ⟨_, Array.getElem?_eq_getElem (Bank.lt_size_of_mem hx)⟩
      rw [hv]
    · have hout : x ∉ c.range := fun h => (Range.overlaps_eq_false_iff ..).mp (hc b hb) x h hx
      have hnone : c.byte? x = none := if_neg hout
      rw [hnone]
      exact ih hcs hb

/-! ## reading -/

theorem bankOf?_spec {m : Memory} {r : Range} {b : Bank} (h : m.bankOf? r = some b) :
    b ∈ m.banks ∧ b.range.contains r = true :=
  ⟨List.mem_of_find?_eq_some h, List.find?_some (p := fun c : Bank => c.range.contains r) h⟩

theorem read_of_bankOf? {m : Memory} {r : Range} {b : Bank} (h : m.bankOf? r = some b) :
    m.read r = .ok (b.read r) := by
  unfold read
  rw [h]

theorem readable_iff (m : Memory) (r : Range) : m.Readable r ↔ ∃ b, m.bankOf? r = some b := by
  unfold Readable layout bankOf?
  rw [← Option.isSome_iff_exists, List.find?_isSome]
  constructor
  · rintro ⟨q, hq, hc⟩
    obtain ⟨b, hb, rfl⟩ := List.mem_map.mp hq
    exact ⟨b, hb, hc⟩
  · rintro ⟨b, hb, hc⟩
    exact ⟨b.range, List.mem_map.mpr ⟨b, hb, rfl⟩, hc⟩

theorem exists_read_iff (m : Memory) (r : Range) : (∃ bs, m.read r = .ok bs) ↔ m.Readable r := by
  rw [readable_iff]
  unfold read
  cases m.bankOf? r with
  | none =>
    constructor
    · rintro ⟨bs, h⟩
      cases h
    · rintro ⟨b, h⟩
      cases h
  | some b => exact ⟨fun _ => ⟨b, rfl⟩, fun _ => ⟨_, rfl⟩⟩

theorem read_of_not_readable {m : Memory} {r : Range} (h : ¬ m.Readable r) : m.read r = .error r := by
  rw [readable_iff] at h
  unfold read
  cases hb : m.bankOf? r with
  | none => rfl
  | some b => exact absurd ⟨b, hb⟩ h

theorem read_eq_error_iff {m : Memory} {r r' : Range} :
    m.read r = .error r' ↔ m.bankOf? r = none ∧ r' = r := by
  unfold read
  cases m.bankOf? r with
  | none => exact ⟨fun h => ⟨rfl, (Except.error.inj h).symm⟩, fun h => congrArg _ h.2.symm⟩
  | some b => exact ⟨fun h => (nomatch h), fun h => (nomatch h.1)⟩

/-- **A read of a range gives its bytes, one after another.** -/
theorem read_eq_ok_iff {m : Memory} (hm : m.Disjoint) (r : Range) (bs : Bytes) :
    m.read r = .ok bs ↔ m.Readable r ∧ bs.length = r.size
      ∧ ∀ i < r.size, bs[i]? = m.byte? (r.start.val + i) := by
  by_cases hread : m.Readable r
  · obtain ⟨b, hb⟩ := (readable_iff m r).mp hread
    obtain ⟨hmem, hin⟩ := bankOf?_spec hb
    have hbytes : ∀ i < r.size, (b.read r)[i]? = m.byte? (r.start.val + i) := by
      intro i hi
      have hx : r.start.val + i ∈ b.range := by
        refine Range.mem_of_contains hin ((Range.mem_iff ..).mpr ?_)
        unfold Range.size at hi
        omega
      rw [Bank.getElem?_read hin hi, byte?_of_mem hm hmem hx]
      exact (if_pos hx).symm
    rw [read_of_bankOf? hb, Except.ok.injEq]
    constructor
    · rintro rfl
      exact ⟨hread, Bank.length_read hin, hbytes⟩
    · rintro ⟨-, hlen, hbs⟩
      apply List.ext_getElem?
      intro i
      by_cases hi : i < r.size
      · rw [hbytes i hi, hbs i hi]
      · rw [List.getElem?_eq_none (by rw [Bank.length_read hin]; omega),
          List.getElem?_eq_none (by omega)]
  · rw [read_of_not_readable hread]
    constructor
    · intro h
      cases h
    · intro h
      exact absurd h.1 hread

theorem length_of_read {m : Memory} {r : Range} {bs : Bytes} (h : m.read r = .ok bs) :
    bs.length = r.size := by
  obtain ⟨b, hb⟩ := (readable_iff m r).mp ((exists_read_iff m r).mp ⟨bs, h⟩)
  rw [read_of_bankOf? hb] at h
  cases h
  exact Bank.length_read (bankOf?_spec hb).2

theorem readable_take {m : Memory} {a : Address} {n k : Nat} (h : m.Readable (.span a n))
    (hk : k ≤ n) : m.Readable (.span a k) := by
  obtain ⟨q, hq, hc⟩ := h
  refine ⟨q, hq, ?_⟩
  rw [Range.contains_iff, Range.stop_span, Range.start_span] at hc ⊢
  omega

theorem read_take {m : Memory} (hm : m.Disjoint) {a : Address} {n k : Nat} {bs : Bytes}
    (h : m.read (.span a n) = .ok bs) (hk : k ≤ n) : m.read (.span a k) = .ok (bs.take k) := by
  obtain ⟨hread, hlen, hbytes⟩ := (read_eq_ok_iff hm ..).mp h
  rw [Range.size_span] at hlen hbytes
  rw [read_eq_ok_iff hm, Range.size_span, List.length_take]
  refine ⟨readable_take hread hk, by omega, fun i hi => ?_⟩
  rw [List.getElem?_take_of_lt (by omega), hbytes i (by omega)]
  rfl

/-! ## two memories with the same banks -/

theorem readable_congr {m m' : Memory} (h : m'.layout = m.layout) (r : Range) :
    m'.Readable r ↔ m.Readable r := by
  unfold Readable
  rw [h]

theorem disjoint_congr {m m' : Memory} (h : m'.layout = m.layout) : m'.Disjoint ↔ m.Disjoint := by
  rw [disjoint_iff, disjoint_iff, h]

/-- the same bytes in a range -/
def Agree (r : Range) (m m' : Memory) : Prop := ∀ x : Nat, x ∈ r → m'.byte? x = m.byte? x

theorem agree_iff (r : Range) (m m' : Memory) :
    Agree r m m' ↔ ∀ i < r.size, m'.byte? (r.start.val + i) = m.byte? (r.start.val + i) := by
  constructor
  · intro h i hi
    unfold Range.size at hi
    exact h _ ((Range.mem_iff ..).mpr (by omega))
  · intro h x hx
    rw [Range.mem_iff] at hx
    have hi := h (x - r.start.val) (by unfold Range.size; omega)
    rw [Nat.add_sub_cancel' hx.1] at hi
    exact hi

instance (r : Range) (m m' : Memory) : Decidable (Agree r m m') :=
  decidable_of_iff _ (agree_iff r m m').symm

/-- memories that agree on a range read the same there, or refuse the same range -/
theorem read_congr {m m' : Memory} (hm : m.Disjoint) (hlayout : m'.layout = m.layout) {r : Range}
    (h : Agree r m m') : m'.read r = m.read r := by
  have hreadable := readable_congr hlayout r
  by_cases hread : m.Readable r
  · obtain ⟨bs, hbs⟩ := (exists_read_iff m r).mpr hread
    obtain ⟨-, hlen, hbytes⟩ := (read_eq_ok_iff hm r bs).mp hbs
    rw [hbs, read_eq_ok_iff ((disjoint_congr hlayout).mpr hm)]
    refine ⟨hreadable.mpr hread, hlen, fun i hi => ?_⟩
    rw [hbytes i hi, (agree_iff ..).mp h i hi]
  · rw [read_of_not_readable hread, read_of_not_readable fun h' => hread (hreadable.mp h')]

theorem agree_of_read {m m' : Memory} (hm : m.Disjoint) (hm' : m'.Disjoint) {r : Range} {bs : Bytes}
    (h : m.read r = .ok bs) (h' : m'.read r = .ok bs) : Agree r m m' := by
  obtain ⟨-, -, hbytes⟩ := (read_eq_ok_iff hm r bs).mp h
  obtain ⟨-, -, hbytes'⟩ := (read_eq_ok_iff hm' r bs).mp h'
  rw [agree_iff]
  intro i hi
  rw [← hbytes i hi, ← hbytes' i hi]

/-! ## frames -/

/-- the same banks, with the same bytes outside the given ranges -/
structure Frame (rs : List Range) (m m' : Memory) : Prop where
  layout : m'.layout = m.layout
  bytes : ∀ x : Nat, (∀ r ∈ rs, x ∉ r) → m'.byte? x = m.byte? x

namespace Frame

variable {rs qs : List Range} {m m' m'' : Memory}

theorem refl (rs : List Range) (m : Memory) : Frame rs m m := ⟨rfl, fun _ _ => rfl⟩

theorem trans (h : Frame rs m m') (h' : Frame rs m' m'') : Frame rs m m'' :=
  ⟨h'.layout.trans h.layout, fun x hx => (h'.bytes x hx).trans (h.bytes x hx)⟩

theorem mono (h : Frame rs m m') (hsub : ∀ r ∈ rs, r ∈ qs) : Frame qs m m' :=
  ⟨h.layout, fun x hx => h.bytes x fun r hr => hx r (hsub r hr)⟩

theorem disjoint (h : Frame rs m m') (hm : m.Disjoint) : m'.Disjoint :=
  (disjoint_congr h.layout).mpr hm

theorem read (h : Frame rs m m') (hm : m.Disjoint) {r : Range}
    (hr : ∀ q ∈ rs, r.overlaps q = false) : m'.read r = m.read r := by
  refine read_congr hm h.layout fun x hx => h.bytes x fun q hq => ?_
  exact (Range.overlaps_eq_false_iff ..).mp (hr q hq) x hx

end Frame

/-- two memories go on to agree on a range where both write the same bytes into it, or none -/
theorem Agree.frame {r : Range} {rs : List Range} {m₁ m₂ m₁' m₂' : Memory} (h : Agree r m₁ m₂)
    (hf : Frame rs m₁ m₁') (hf' : Frame rs m₂ m₂')
    (hrs : ∀ q ∈ rs, r.overlaps q = false ∨ Agree q m₁' m₂') : Agree r m₁' m₂' := by
  intro x hx
  by_cases hin : ∃ q ∈ rs, x ∈ q
  · obtain ⟨q, hq, hxq⟩ := hin
    rcases hrs q hq with hapart | hagree
    · exact absurd hxq ((Range.overlaps_eq_false_iff ..).mp hapart x hx)
    · exact hagree x hxq
  · have hout : ∀ q ∈ rs, x ∉ q := fun q hq hxq => hin ⟨q, hq, hxq⟩
    rw [hf'.bytes x hout, hf.bytes x hout, h x hx]

/-! ## writing -/

theorem writeBanks_append {r : Range} {new : Bytes} {pre post : List Bank} {b : Bank}
    (hpre : ∀ c ∈ pre, c.range.contains r = false) (hb : b.range.contains r = true) :
    writeBanks r new (pre ++ b :: post) = some (pre ++ b.write r.start new :: post) := by
  induction pre with
  | nil => exact if_pos hb
  | cons c cs ih =>
    have hc : c.range.contains r = false := hpre c (List.mem_cons_self ..)
    have hcs := ih fun d hd => hpre d (List.mem_cons_of_mem _ hd)
    rw [List.cons_append, writeBanks, hc, hcs]
    rfl

theorem writeBanks_eq_none {r : Range} {new : Bytes} {bs : List Bank}
    (h : ∀ b ∈ bs, b.range.contains r = false) : writeBanks r new bs = none := by
  induction bs with
  | nil => rfl
  | cons c cs ih =>
    have hc : c.range.contains r = false := h c (List.mem_cons_self ..)
    have hcs := ih fun d hd => h d (List.mem_cons_of_mem _ hd)
    rw [writeBanks, hc, hcs]
    rfl

theorem write_of_bankOf? {m : Memory} {a : Address} {new : Bytes} {b : Bank}
    (h : m.bankOf? (.span a new.length) = some b) :
    ∃ pre post, m.banks = pre ++ b :: post ∧ m.write a new = .ok ⟨pre ++ b.write a new :: post⟩ := by
  obtain ⟨hin, pre, post, hbanks, hpre⟩ := List.find?_eq_some_iff_append.mp h
  have hw : writeBanks (.span a new.length) new (pre ++ b :: post)
      = some (pre ++ b.write a new :: post) :=
    writeBanks_append (fun c hc => Bool.not_eq_true' _ |>.mp (hpre c hc)) hin
  refine ⟨pre, post, hbanks, ?_⟩
  unfold write
  dsimp only
  rw [hbanks, hw]

theorem exists_write_iff (m : Memory) (a : Address) (new : Bytes) :
    (∃ m', m.write a new = .ok m') ↔ m.Readable (.span a new.length) := by
  rw [readable_iff]
  cases h : m.bankOf? (.span a new.length) with
  | some b =>
    obtain ⟨_, _, -, hw⟩ := write_of_bankOf? h
    exact ⟨fun _ => ⟨b, rfl⟩, fun _ => ⟨_, hw⟩⟩
  | none =>
    have hnone : writeBanks (.span a new.length) new m.banks = none :=
      writeBanks_eq_none fun b hb => Bool.eq_false_iff.mpr (List.find?_eq_none.mp h b hb)
    constructor
    · rintro ⟨m', hw⟩
      unfold write at hw
      dsimp only at hw
      rw [hnone] at hw
      cases hw
    · rintro ⟨b, hb⟩
      cases hb

theorem write_of_not_readable {m : Memory} {a : Address} {new : Bytes}
    (h : ¬ m.Readable (.span a new.length)) : m.write a new = .error (.span a new.length) := by
  have hnone : ¬ ∃ m', m.write a new = .ok m' := fun h' => h ((exists_write_iff ..).mp h')
  cases hw : m.write a new with
  | ok m' => exact absurd ⟨m', hw⟩ hnone
  | error r =>
    unfold write at hw
    dsimp only at hw
    split at hw
    · cases hw
    · cases hw
      rfl

/-- **A write changes the bytes written and no others.** -/
theorem write_spec {m m' : Memory} (hm : m.Disjoint) {a : Address} {new : Bytes}
    (htop : a.val + new.length ≤ 0xFFFFFFFFFFFFFFFF) (h : m.write a new = .ok m') :
    Frame [.span a new.length] m m' ∧ m'.read (.span a new.length) = .ok new := by
  have hread : m.Readable (.span a new.length) := (exists_write_iff m a new).mp ⟨m', h⟩
  obtain ⟨b, hb⟩ := (readable_iff ..).mp hread
  obtain ⟨hmem, hin⟩ := bankOf?_spec hb
  obtain ⟨pre, post, hbanks, hw⟩ := write_of_bankOf? hb
  rw [h, Except.ok.injEq] at hw
  have hrange : (b.write a new).range = b.range := Bank.range_write hin htop
  have hlayout : m'.layout = m.layout := by
    unfold layout
    rw [hw, hbanks, List.map_append, List.map_append, List.map_cons, List.map_cons, hrange]
  have hm' : m'.Disjoint := by
    rw [disjoint_iff, hlayout]
    exact (disjoint_iff m).mp hm
  have hmem' : b.write a new ∈ m'.banks := by
    rw [hw]
    exact List.mem_append_right _ (List.mem_cons_self ..)
  have hbytes : ∀ x, m'.byte? x =
      if x ∈ Range.span a new.length then new[x - a.val]? else m.byte? x := by
    intro x
    by_cases hx : x ∈ b.range
    · rw [byte?_of_mem hm' hmem' (hrange ▸ hx), byte?_of_mem hm hmem hx, Bank.byte?_write hin htop]
    · have hold : b.byte? x = none := if_neg hx
      have hnew : (b.write a new).byte? x = none := if_neg (hrange ▸ hx)
      have hspan : x ∉ Range.span a new.length := fun hs => hx (Range.mem_of_contains hin hs)
      unfold byte?
      rw [if_neg hspan, hw, hbanks, List.findSome?_append, List.findSome?_append,
        List.findSome?_cons, List.findSome?_cons, hold, hnew]
  refine ⟨⟨hlayout, fun x hx => ?_⟩, ?_⟩
  · rw [hbytes, if_neg (hx _ (List.mem_cons_self ..))]
  · have hread' : m'.Readable (.span a new.length) := by
      unfold Readable
      rw [hlayout]
      exact hread
    rw [read_eq_ok_iff hm', Range.size_span_of_le htop]
    refine ⟨hread', rfl, fun i hi => ?_⟩
    rw [hbytes, Range.start_span, if_pos ((Range.mem_span_of_le htop _).mpr (by omega)),
      Nat.add_sub_cancel_left]

/-- writing what is there already changes nothing -/
theorem write_self {m : Memory} {a : Address} {bs : Bytes}
    (htop : a.val + bs.length ≤ 0xFFFFFFFFFFFFFFFF) (h : m.read (.span a bs.length) = .ok bs) :
    m.write a bs = .ok m := by
  obtain ⟨b, hb⟩ := (readable_iff ..).mp ((exists_read_iff ..).mp ⟨bs, h⟩)
  obtain ⟨-, hin⟩ := bankOf?_spec hb
  obtain ⟨pre, post, hbanks, hw⟩ := write_of_bankOf? hb
  rw [read_of_bankOf? hb, Except.ok.injEq] at h
  obtain ⟨hbase, hroom⟩ := Bank.write_fits hin htop
  have hsame : b.write a bs = b := by
    have hdata : (b.write a bs).data = b.data := by
      apply Array.toList_inj.mp
      rw [Bank.toList_write]
      apply List.ext_getElem?
      intro i
      rw [Bytes.getElem?_overwrite hroom]
      split
      · rename_i hi
        have hidx : a.val + (i - (a.val - b.base.val)) - b.base.val = i := by omega
        have hget := Bank.getElem?_read hin (i := i - (a.val - b.base.val))
          (by rw [Range.size_span_of_le htop]; omega)
        rw [h, Range.start_span, hidx] at hget
        rw [hget, Array.getElem?_toList]
      · rfl
    show (⟨b.base, (b.write a bs).data⟩ : Bank) = b
    rw [hdata]
  rw [hw, hsame, ← hbanks]

/-- a copy puts the bytes of the source at the destination and changes no others -/
theorem copy_spec {m m' : Memory} (hm : m.Disjoint) {src : Range} {dst : Address}
    (htop : dst.val + src.size ≤ 0xFFFFFFFFFFFFFFFF) (h : m.copy src dst = .ok m') :
    ∃ bs, m.read src = .ok bs ∧ Frame [.span dst src.size] m m'
      ∧ m'.read (.span dst src.size) = .ok bs := by
  unfold copy at h
  split at h
  · cases h
  · rename_i bs hbs
    have hlen := length_of_read hbs
    rw [← hlen] at htop ⊢
    obtain ⟨hframe, hnew⟩ := write_spec hm htop h
    exact ⟨bs, hbs, hframe, hnew⟩

/-! ### when a copy succeeds -/

section
variable {m : Memory} {src : Range} {dst : Address}

theorem copy_of_not_readable (h : ¬ m.Readable src) : m.copy src dst = .error src := by
  unfold copy
  rw [read_of_not_readable h]

theorem copy_of_no_room (hsrc : m.Readable src) (hdst : ¬ m.Readable (.span dst src.size)) :
    m.copy src dst = .error (.span dst src.size) := by
  obtain ⟨bs, hbs⟩ := (exists_read_iff m src).mpr hsrc
  have hlen := length_of_read hbs
  unfold copy
  rw [hbs]
  dsimp only
  rw [← hlen] at hdst ⊢
  exact write_of_not_readable hdst

theorem exists_copy (hsrc : m.Readable src) (hdst : m.Readable (.span dst src.size)) :
    ∃ m', m.copy src dst = .ok m' := by
  obtain ⟨bs, hbs⟩ := (exists_read_iff m src).mpr hsrc
  have hlen := length_of_read hbs
  unfold copy
  rw [hbs]
  dsimp only
  rw [← hlen] at hdst
  exact (exists_write_iff ..).mpr hdst

end

theorem copy_congr {m m' : Memory} (h : m'.layout = m.layout) (src : Range) (dst : Address) :
    (∃ r, m.copy src dst = .error r ∧ m'.copy src dst = .error r)
      ∨ ∃ m₁ m₁', m.copy src dst = .ok m₁ ∧ m'.copy src dst = .ok m₁' := by
  have hread := readable_congr h src
  have hroom := readable_congr h (.span dst src.size)
  by_cases hsrc : m.Readable src
  · by_cases hdst : m.Readable (.span dst src.size)
    · obtain ⟨m₁, h₁⟩ := exists_copy hsrc hdst
      obtain ⟨m₁', h₁'⟩ := exists_copy (hread.mpr hsrc) (hroom.mpr hdst)
      exact .inr ⟨m₁, m₁', h₁, h₁'⟩
    · refine .inl ⟨_, copy_of_no_room hsrc hdst, copy_of_no_room (hread.mpr hsrc) fun hdst' => ?_⟩
      exact hdst (hroom.mp hdst')
  · exact .inl ⟨_, copy_of_not_readable hsrc,
      copy_of_not_readable fun hsrc' => hsrc (hread.mp hsrc')⟩

end Memory

end ChainBoot
