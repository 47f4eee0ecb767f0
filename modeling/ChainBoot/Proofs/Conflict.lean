import Mathlib.Data.List.DropRight
import Mathlib.Order.Bounds.Basic
import ChainBoot.ModuleTable

/-!
# Conflicts in every table that can be reached

A table is reached by pushes, clears and changes to the records it holds.  `History` goes along
with it and keeps the tag offsets of the pushes that found room, so that what a table holds can be
said without the table.

* `Ordered`            record `i` has handle `i` and the offset of the push that made it; kept by
                       every operation (`Ordered.step`), so true of every run (`ordered_run`);
* `offsets_run`        the pushes that found room are the first ones since the last clear;
* `Blocks`             some byte of a pending module, the kernel apart, is a byte of a loadable
                       segment;
* `conflict?_exact`    the conflict that is found is the least handle that blocks.
-/

namespace ChainBoot

theorem ModuleRecord.mem_range (r : ModuleRecord) (x : Nat) :
    x ∈ r.range ↔ r.first.toNat ≤ x ∧ x ≤ r.last.toNat := by
  have hlast := r.last.toNat_lt
  rw [range, Range.mem_inclusive, Address.val_ofUInt32, Address.val_ofUInt32]
  omega

namespace ModuleTable

/-! ## operations -/

theorem push_eq_none_iff {t : ModuleTable} {offset : Nat} {first last : UInt32} :
    t.push offset first last = none ↔ capacity ≤ t.size := by
  unfold push
  split
  · rename_i h
    exact iff_of_false (fun hnone => nomatch hnone) (Nat.not_le.mpr h)
  · rename_i h
    exact iff_of_true rfl (Nat.not_lt.mp h)

theorem push_eq_some {t t' : ModuleTable} {offset : Nat} {first last : UInt32}
    (h : t.push offset first last = some t') : t.size < capacity
      ∧ t' = ⟨t.records ++ [⟨t.size, offset, first, last, .pending⟩]⟩ := by
  unfold push at h
  split at h
  · rename_i hroom
    exact ⟨hroom, (Option.some.inj h).symm⟩
  · cases h

theorem get?_push {t t' : ModuleTable} {offset : Nat} {first last : UInt32}
    (h : t.push offset first last = some t') (i : Nat) : t'.get? i =
      if i = t.size then some ⟨t.size, offset, first, last, .pending⟩ else t.get? i := by
  obtain ⟨-, rfl⟩ := push_eq_some h
  show (t.records ++ [_])[i]? = _
  split
  · rename_i hi
    rw [hi]
    exact List.getElem?_concat_length
  · rename_i hi
    rcases Nat.lt_or_gt_of_ne hi with hlt | hgt
    · exact List.getElem?_append_left hlt
    · rw [List.getElem?_eq_none (List.length_append.trans_le hgt)]
      exact (List.getElem?_eq_none (Nat.le_of_lt hgt)).symm

theorem get?_update (t : ModuleTable) (handle i : Nat) (f : ModuleRecord → ModuleRecord) :
    (t.update handle f).get? i = (t.get? i).map fun r => if handle = i then f r else r :=
  List.getElem?_modify ..

theorem size_update (t : ModuleTable) (handle : Nat) (f : ModuleRecord → ModuleRecord) :
    (t.update handle f).size = t.size := List.length_modify ..

/-- a change to one of the fields of a record that are not fixed when it is made -/
inductive Amendment where
  | first (v : UInt32)
  | last (v : UInt32)
  | state (s : ModuleState)

def Amendment.apply : Amendment → ModuleRecord → ModuleRecord
  | .first v, r => { r with first := v }
  | .last v, r => { r with last := v }
  | .state s, r => { r with state := s }

theorem Amendment.handle_apply (a : Amendment) (r : ModuleRecord) :
    (a.apply r).handle = r.handle := by cases a <;> rfl

theorem Amendment.tagOffset_apply (a : Amendment) (r : ModuleRecord) :
    (a.apply r).tagOffset = r.tagOffset := by cases a <;> rfl

inductive Op where
  | push (offset : Nat) (first last : UInt32)
  | clear
  | amend (handle : Nat) (a : Amendment)

namespace Op

def isClear : Op → Bool
  | .clear => true
  | _ => false

/-- the tag offset of a push -/
def offset? : Op → Option Nat
  | .push offset _ _ => some offset
  | _ => none

end Op

/-! ## histories -/

/-- a table, and the tag offsets of the pushes since the last clear that found room -/
structure History where
  table : ModuleTable
  offsets : List Nat

namespace History

def start : History := ⟨.empty, []⟩

/-- one operation; a push that finds no room changes nothing -/
def step (s : History) : Op → History
  | .push offset first last =>
    match s.table.push offset first last with
    | some t => ⟨t, s.offsets ++ [offset]⟩
    | none => s
  | .clear => start
  | .amend handle a => ⟨s.table.update handle a.apply, s.offsets⟩

def run (ops : List Op) : History := ops.foldl step start

theorem run_concat (ops : List Op) (op : Op) : run (ops ++ [op]) = (run ops).step op :=
  List.foldl_concat ..

theorem step_push_of_full {s : History} {offset : Nat} {first last : UInt32}
    (h : s.table.push offset first last = none) : s.step (.push offset first last) = s := by
  rw [step, h]

theorem step_push_of_room {s : History} {t : ModuleTable} {offset : Nat} {first last : UInt32}
    (h : s.table.push offset first last = some t) :
    s.step (.push offset first last) = ⟨t, s.offsets ++ [offset]⟩ := by
  rw [step, h]

/-- every record stands at its handle, with the offset of the push that made it -/
structure Ordered (s : History) : Prop where
  size_eq : s.offsets.length = s.table.size
  size_le : s.table.size ≤ capacity
  record : ∀ i r, s.table.get? i = some r → r.handle = i ∧ s.offsets[i]? = some r.tagOffset

theorem ordered_start : Ordered start where
  size_eq := rfl
  size_le := Nat.zero_le _
  record _ _ h := nomatch h

theorem Ordered.push {s : History} (h : Ordered s) {t : ModuleTable} {offset : Nat}
    {first last : UInt32} (hpush : s.table.push offset first last = some t) :
    Ordered ⟨t, s.offsets ++ [offset]⟩ := by
  obtain ⟨hroom, ht⟩ := push_eq_some hpush
  have hsize : t.size = s.table.size + 1 := by
    rw [ht]
    exact List.length_append
  refine ⟨?_, hsize ▸ hroom, fun i r hr => ?_⟩
  · rw [hsize, ← h.size_eq]
    exact List.length_append
  · rw [get?_push hpush] at hr
    split at hr
    · rename_i hi
      cases hr
      refine ⟨hi.symm, ?_⟩
      rw [hi, ← h.size_eq]
      exact List.getElem?_concat_length
    · obtain ⟨hhandle, hoffset⟩ := h.record i r hr
      have hlt : i < s.offsets.length := (List.getElem?_eq_some_iff.mp hoffset).1
      exact ⟨hhandle, (List.getElem?_append_left hlt).trans hoffset⟩

theorem Ordered.step {s : History} (h : Ordered s) (op : Op) : Ordered (s.step op) := by
  cases op with
  | push offset first last =>
    cases hpush : s.table.push offset first last with
    | none => rwa [step_push_of_full hpush]
    | some t =>
      rw [step_push_of_room hpush]
      exact h.push hpush
  | clear => exact ordered_start
  | amend handle a =>
    refine ⟨h.size_eq.trans (size_update ..).symm, (size_update ..).trans_le h.size_le, ?_⟩
    intro i r hr
    obtain ⟨r, hold, rfl⟩ := Option.map_eq_some_iff.mp ((get?_update ..).symm.trans hr)
    obtain ⟨hhandle, hoffset⟩ := h.record i r hold
    split
    · rw [a.handle_apply, a.tagOffset_apply]
      exact ⟨hhandle, hoffset⟩
    · exact ⟨hhandle, hoffset⟩

/-- **Every table that is reached is in order.** -/
theorem ordered_run (ops : List Op) : Ordered (run ops) := by
  induction ops using List.reverseRecOn with
  | nil => exact ordered_start
  | append_singleton ops op ih => exact run_concat ops op ▸ ih.step op

/-- the tag offsets of all pushes since the last clear, whether they found room or not -/
def requested (ops : List Op) : List Nat :=
  (ops.rtakeWhile fun op => !op.isClear).filterMap Op.offset?

theorem requested_clear (ops : List Op) : requested (ops ++ [.clear]) = [] := by
  unfold requested
  rw [List.rtakeWhile_concat_neg _ _ _ Bool.false_ne_true]
  rfl

theorem requested_concat (ops : List Op) {op : Op} (h : op.isClear = false) :
    requested (ops ++ [op]) = requested ops ++ op.offset?.toList := by
  unfold requested
  rw [List.rtakeWhile_concat_pos _ _ _ (by rw [h]; rfl), List.filterMap_append]
  cases op <;> rfl

/-- **The pushes that found room are the first ones since the last clear.** -/
theorem offsets_run (ops : List Op) : (run ops).offsets = (requested ops).take capacity := by
  induction ops using List.reverseRecOn with
  | nil => rfl
  | append_singleton ops op ih =>
    have hlength : (run ops).offsets.length = min capacity (requested ops).length := by
      rw [ih, List.length_take]
    rw [run_concat]
    cases op with
    | clear =>
      rw [requested_clear, step, List.take_nil]
      rfl
    | amend handle a =>
      rw [requested_concat _ rfl, step, ih]
      exact congrArg _ (List.append_nil _).symm
    | push offset first last =>
      rw [requested_concat _ rfl]
      have hsize := (ordered_run ops).size_eq
      cases hpush : (run ops).table.push offset first last with
      | none =>
        have hfull := push_eq_none_iff.mp hpush
        rw [step_push_of_full hpush, ih, List.take_append_of_le_length (by omega)]
      | some t =>
        have hroom := (push_eq_some hpush).1
        have hfits : (requested ops ++ [offset]).length ≤ capacity := by
          rw [List.length_append, List.length_singleton]
          omega
        rw [step_push_of_room hpush, ih, List.take_of_length_le (by omega)]
        exact (List.take_of_length_le hfits).symm

end History

/-! ## conflicts -/

/-- some byte of a pending module, the kernel apart, is one that a loadable segment takes -/
def Blocks (t : ModuleTable) (elf : Elf.Header) (h : Nat) : Prop :=
  1 ≤ h ∧ ∃ r, t.get? h = some r ∧ r.state = .pending
    ∧ ∃ x : Nat, r.first.toNat ≤ x ∧ x ≤ r.last.toNat ∧ ∃ s ∈ elf.loadable, x ∈ s.range

theorem any_overlaps_iff {elf : Elf.Header} {r : ModuleRecord} :
    (elf.segments.any fun s => s.loadable && s.range.overlaps r.range) = true
      ↔ ∃ x : Nat, r.first.toNat ≤ x ∧ x ≤ r.last.toNat ∧ ∃ s ∈ elf.loadable, x ∈ s.range := by
  rw [List.any_eq_true]
  constructor
  · rintro ⟨s, hs, hboth⟩
    obtain ⟨hload, hover⟩ := Bool.and_eq_true_iff.mp hboth
    obtain ⟨x, hseg, hmod⟩ := (Range.overlaps_iff ..).mp hover
    obtain ⟨hlo, hhi⟩ := (r.mem_range x).mp hmod
    exact ⟨x, hlo, hhi, s, List.mem_filter.mpr ⟨hs, hload⟩, hseg⟩
  · rintro ⟨x, hlo, hhi, s, hs, hseg⟩
    obtain ⟨hs, hload⟩ := List.mem_filter.mp hs
    have hover := (Range.overlaps_iff ..).mpr ⟨x, hseg, (r.mem_range x).mpr ⟨hlo, hhi⟩⟩
    exact ⟨s, hs, Bool.and_eq_true_iff.mpr ⟨hload, hover⟩⟩

theorem inWay_iff {t : ModuleTable} {elf : Elf.Header} {h : Nat} {r : ModuleRecord}
    (hr : t.get? h = some r) (hh : r.handle = h) :
    (r.isPending && !r.isKernel
      && elf.segments.any fun s => s.loadable && s.range.overlaps r.range) = true
      ↔ t.Blocks elf h := by
  have hkernel : r.isKernel = false ↔ 1 ≤ h := by
    rw [ModuleRecord.isKernel, hh, beq_eq_false_iff_ne]
    exact Nat.one_le_iff_ne_zero.symm
  have hpending : r.isPending = true ↔ r.state = .pending := beq_iff_eq
  rw [Bool.and_eq_true, Bool.and_eq_true, Bool.not_eq_true', hkernel, hpending,
    any_overlaps_iff]
  constructor
  · rintro ⟨⟨hstate, hpos⟩, hbyte⟩
    exact ⟨hpos, r, hr, hstate, hbyte⟩
  · rintro ⟨hpos, r', hr', hstate, hbyte⟩
    obtain rfl : r = r' := Option.some.inj (hr.symm.trans hr')
    exact ⟨⟨hstate, hpos⟩, hbyte⟩

section
variable {t : ModuleTable} {elf : Elf.Header}

theorem conflict?_eq_none_iff_blocks (hhandle : ∀ i r, t.get? i = some r → r.handle = i) :
    t.conflict? elf.segments = none ↔ ∀ h, ¬ t.Blocks elf h := by
  rw [conflict?, Option.map_eq_none_iff, List.find?_eq_none]
  constructor
  · intro hnone h hblocks
    obtain ⟨-, r, hr, -⟩ := id hblocks
    exact hnone r (List.mem_of_getElem? hr) ((inWay_iff hr (hhandle h r hr)).mpr hblocks)
  · intro hnone r hmem htest
    obtain ⟨h, hr⟩ := List.getElem?_of_mem hmem
    exact hnone h ((inWay_iff hr (hhandle h r hr)).mp htest)

theorem isLeast_of_conflict? (hhandle : ∀ i r, t.get? i = some r → r.handle = i) {h : Nat}
    (hconflict : t.conflict? elf.segments = some h) : IsLeast {i | t.Blocks elf i} h := by
  obtain ⟨r, hfind, hh⟩ := Option.map_eq_some_iff.mp hconflict
  obtain ⟨htest, i, hi, hget, hbefore⟩ := List.find?_eq_some_iff_getElem.mp hfind
  have hr : t.get? i = some r := List.getElem?_eq_some_iff.mpr ⟨hi, hget⟩
  obtain rfl : i = h := (hhandle i r hr).symm.trans hh
  refine ⟨(inWay_iff hr hh).mp htest, fun j hj => Nat.not_lt.mp fun hlt => ?_⟩
  -- a record in front of the one that is found has failed the test
  obtain ⟨-, r', hr', -⟩ := id hj
  obtain ⟨hbound, hget'⟩ := List.getElem?_eq_some_iff.mp hr'
  have hfailed := hbefore j hlt
  rw [hget', (inWay_iff hr' (hhandle j r' hr')).mpr hj] at hfailed
  cases hfailed

/-- **The conflict of a table in order is the least handle that blocks.** -/
theorem conflict?_eq_some_iff (hhandle : ∀ i r, t.get? i = some r → r.handle = i) {h : Nat} :
    t.conflict? elf.segments = some h ↔ IsLeast {i | t.Blocks elf i} h := by
  refine ⟨isLeast_of_conflict? hhandle, fun hleast => ?_⟩
  cases hconflict : t.conflict? elf.segments with
  | none => exact absurd hleast.1 ((conflict?_eq_none_iff_blocks hhandle).mp hconflict h)
  | some i => exact congrArg some ((isLeast_of_conflict? hhandle hconflict).unique hleast)

end

/-- **What a table holds and which module it reports, after any history.**  It holds the first
pushes since the last clear, up to its capacity, each at its handle; and it reports the least module,
the kernel apart, that is pending and shares a byte with a loadable segment. -/
theorem conflict?_exact (ops : List Op) :
    (History.run ops).table.size ≤ 32
    ∧ ((History.run ops).offsets.length = (History.run ops).table.size
      ∧ (History.run ops).offsets = (History.requested ops).take 32
      ∧ ∀ i r, (History.run ops).table.get? i = some r →
          r.handle = i ∧ (History.run ops).offsets[i]? = some r.tagOffset)
    ∧ (∀ offset first last,
        ((History.run ops).table.push offset first last = none ↔ (History.run ops).table.size = 32)
        ∧ ((History.run ops).table.push offset first last = none →
            History.run (ops ++ [.push offset first last]) = History.run ops))
    ∧ ∀ elf : Elf.Header,
        (∀ h, (History.run ops).table.conflict? elf.segments = some h
          ↔ IsLeast {i | (History.run ops).table.Blocks elf i} h)
        ∧ ((History.run ops).table.conflict? elf.segments = none
          ↔ ∀ h, ¬ (History.run ops).table.Blocks elf h) := by
  have hordered := History.ordered_run ops
  have hhandle := fun i r hr => (hordered.record i r hr).1
  refine ⟨hordered.size_le, ⟨hordered.size_eq, History.offsets_run ops, hordered.record⟩,
    fun offset first last => ⟨?_, fun hfull => ?_⟩,
    fun elf => ⟨fun h => conflict?_eq_some_iff hhandle, conflict?_eq_none_iff_blocks hhandle⟩⟩
  · exact push_eq_none_iff.trans ⟨fun h => Nat.le_antisymm hordered.size_le h, fun h => h.ge⟩
  · rw [History.run_concat, History.step_push_of_full hfull]

/-- a module that ends on the first byte of a segment, behind one that is used up, and a table that
is full -/
theorem touchingModule_reported :
    IsLeast {i | (History.run [.push 8 0 0, .clear, .push 16 0x200000 0x20FFFF,
          .push 40 0x100000 0x100FFF, .push 64 0xFF000 0xFFFFF, .amend 1 (.state .consumed),
          .amend 2 (.last 0x100000)]).table.Blocks
        ⟨.elf64, 0, [⟨1, ⟨0x100000, by decide⟩, 0x1000, ⟨5⟩⟩]⟩ i} 2
      ∧ History.run (List.replicate 32 (.push 8 0 0) ++ [.push 16 0 0])
        = History.run (List.replicate 32 (.push 8 0 0)) :=
  ⟨(((conflict?_exact _).2.2.2 _).1 2).mp (by decide +kernel),
    ((conflict?_exact _).2.2.1 _ _ _).2 (by decide +kernel)⟩

end ModuleTable

end ChainBoot
