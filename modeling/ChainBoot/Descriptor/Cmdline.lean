import ChainBoot.Descriptor.Content
import ChainBoot.Descriptor.Edit
import ChainBoot.Descriptor.Walk

/-!
# Taking out the command lines

`Descriptor.dropCmdlines` invalidates the first command line tag of the walk until there is none.
Each time the walk has one such tag less (`countP_invalidate_lt`), since nothing but the type of
that tag changes.
-/

namespace ChainBoot.Descriptor

/-- fewer elements pass a test behind a map that makes one of them fail and none of them pass -/
theorem countP_map_lt {α : Type} {p : α → Bool} {f : α → α} {as : List α}
    (keep : ∀ a ∈ as, p (f a) = true → p a = true) {a : α} (ha : a ∈ as) (hp : p a = true)
    (hf : p (f a) = false) : (as.map f).countP p < as.countP p := by
  induction as with
  | nil => cases ha
  | cons b bs ih =>
    have hle : (bs.map f).countP p ≤ bs.countP p := by
      rw [List.countP_map]
      exact List.countP_mono_left fun c hc h => keep c (List.mem_cons_of_mem _ hc) h
    rw [List.map_cons, List.countP_cons, List.countP_cons]
    rcases List.mem_cons.mp ha with rfl | ha
    · rw [hf, hp]
      simp only [Bool.false_eq_true, if_false, if_true]
      omega
    · have hlt := ih (fun c hc => keep c (List.mem_cons_of_mem _ hc)) ha
      have hb := keep b (List.mem_cons_self ..)
      by_cases h : p (f b) = true
      · rw [if_pos h, if_pos (hb h)]
        omega
      · rw [if_neg h]
        omega

theorem eq_of_invalidate {d d' : Descriptor} {offset : Nat} (h : d.invalidate offset = .ok d') :
    d' = d.overwrite offset (Bytes.le32 TagType.invalid) := by
  unfold invalidate at h
  match ht : d.tagToEdit offset with
  | .error e => rw [ht] at h; cases h
  | .ok t => rw [ht] at h; cases h; rfl

theorem countP_invalidate_lt {d d' : Descriptor} {t : Tag} (hfind : d.tags.find? Tag.isCmdline = some t)
    (h : d.invalidate t.offset = .ok d') :
    d'.tags.countP Tag.isCmdline < d.tags.countP Tag.isCmdline := by
  have hmem := List.mem_of_find?_eq_some hfind
  rw [eq_of_invalidate h]
  unfold overwrite
  rw [tags_retype hmem (by decide)]
  refine countP_map_lt ?_ hmem (List.find?_some hfind) ?_
  · intro u _ hu
    split at hu
    · cases hu
    · exact hu
  · rw [if_pos rfl]
    rfl

/-- a descriptor without command line tags, and the offsets of those it had -/
structure Dropped where
  descriptor : Descriptor
  offsets : List Nat
deriving DecidableEq

def dropCmdlines (d : Descriptor) : Except DescriptorError Dropped :=
  match _hfind : d.tags.find? Tag.isCmdline with
  | none => .ok ⟨d, []⟩
  | some t =>
    match _h : d.invalidate t.offset with
    | .error e => .error e
    | .ok d' => (dropCmdlines d').map fun r => ⟨r.descriptor, t.offset :: r.offsets⟩
termination_by d.tags.countP Tag.isCmdline
decreasing_by exact countP_invalidate_lt _hfind _h

end ChainBoot.Descriptor
