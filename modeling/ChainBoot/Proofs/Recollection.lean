import ChainBoot.Proofs.Runs
import ChainBoot.Proofs.Written

/-!
# Collecting again

The first collection takes the command lines out of the descriptor.  What it leaves is the same for
every later one: nothing more is taken out, and the same modules are listed, by whatever loader and
wherever in memory the descriptor lies.

* `collect_outcome`            what comes of a collection, by the number of the modules;
* `exists_cmdline_of_collect`  the bytes that it writes, whatever comes of it;
* `Gathered`                   what one that succeeds has done;
* `collect_stable`             collecting again after it, here or behind a move, changes nothing.
-/

namespace ChainBoot.Loader

variable {l l' : Loader} {d d' : Descriptor} {p : Phase}

/-! ## one collection -/

/-- **The number of the modules decides.** -/
theorem collect_outcome (hm : l.memory.Disjoint) (hd : descriptorAt l.memory l.descriptor = .ok d) :
    l.collect.2 = if d.modules = [] then .failed .noModule
      else if ModuleTable.capacity < d.modules.length then .failed .capacityExceeded
      else .next .validatingPlacement := by
  obtain ⟨d', m, hret, -, -, -, hout⟩ := collect_eq hm hd
  rw [hret.modules] at hout
  rcases hout with ⟨hsome, hfew, hc⟩ | ⟨t, e, hc, ⟨hnil, rfl⟩ | ⟨hfull, rfl⟩⟩
  · rw [hc, if_neg hsome, if_neg (Nat.not_lt.mpr hfew)]
  · rw [hc, if_pos hnil]
  · have hsome : d.modules ≠ [] := by
      intro hnil
      rw [hnil] at hfull
      exact absurd hfull (Nat.not_lt_zero _)
    rw [hc, if_neg hsome, if_pos hfull]

theorem exists_cmdline_of_collect (hm : l.memory.Disjoint)
    (hd : descriptorAt l.memory l.descriptor = .ok d) {x : Nat}
    (hx : l.collect.1.memory.byte? x ≠ l.memory.byte? x) : ∃ t ∈ d.tags, t.isCmdline = true
      ∧ l.descriptor.val + t.offset ≤ x ∧ x < l.descriptor.val + t.offset + 4 := by
  rcases collect_written hm with hsame | ⟨found, d', hfound, hret, hframe, hstored⟩
  · rw [hsame] at hx
    exact absurd rfl hx
  · rw [hd, Except.ok.injEq] at hfound
    subst hfound
    exact exists_cmdline_of_retired hm hd hstored hret hframe hx

theorem shape_of_retired (h : d.Retired d') :
    d'.tags.map (fun t => (t.offset, t.size, t.payload))
      = d.tags.map fun t => (t.offset, t.size, t.payload) := by
  rw [h.tags, List.map_map]
  refine List.map_congr_left fun t _ => ?_
  show (t.retire.offset, t.retire.size, t.retire.payload) = _
  unfold Tag.retire
  split <;> rfl

/-- what a collection has done that succeeded -/
structure Gathered (l : Loader) (d : Descriptor) (l' : Loader) (d' : Descriptor) : Prop where
  incoming : descriptorAt l.memory l.descriptor = .ok d
  stored : descriptorAt l'.memory l.descriptor = .ok d'
  layout : l'.memory.layout = l.memory.layout
  written : ∀ x, l'.memory.byte? x ≠ l.memory.byte? x → ∃ t ∈ d.tags, t.isCmdline = true
    ∧ l.descriptor.val + t.offset ≤ x ∧ x < l.descriptor.val + t.offset + 4
  retired : d'.tags = d.tags.map Tag.retire
  shape : d'.tags.map (fun t => (t.offset, t.size, t.payload))
    = d.tags.map fun t => (t.offset, t.size, t.payload)
  clean : ∀ t ∈ d'.tags, t.isCmdline = false
  table : l'.modules = .ofModules d.modules
  state : l' = { l with memory := l'.memory, modules := l'.modules }

theorem gathered_of_collect (hm : l.memory.Disjoint) (h : l.collect = (l', .next p)) :
    p = .validatingPlacement ∧ ∃ d d', l.Gathered d l' d' ∧ l'.Collected d' := by
  rcases collect_cases hm with ⟨_, e, hfail⟩ | ⟨d, found, d', hc, hlisted⟩
  · rw [h] at hfail
    cases hfail
  · rw [h] at hc
    cases hc
    have haddress : l'.descriptor = l.descriptor := by
      rw [hlisted.state]
    have hstored := hlisted.collected.stored
    rw [haddress] at hstored
    have hwritten : ∀ x, l.collect.1.memory.byte? x ≠ l.memory.byte? x → ∃ t ∈ d.tags,
        t.isCmdline = true ∧ l.descriptor.val + t.offset ≤ x ∧ x < l.descriptor.val + t.offset + 4 :=
      fun _ hx => exists_cmdline_of_collect hm hlisted.incoming hx
    rw [h] at hwritten
    exact ⟨rfl, d, d', {
      incoming := hlisted.incoming
      stored := hstored
      layout := hlisted.frame.layout
      written := hwritten
      retired := hlisted.retired.tags
      shape := shape_of_retired hlisted.retired
      clean := hlisted.retired.clean
      table := by rw [hlisted.collected.table, hlisted.retired.modules]
      state := hlisted.state }, hlisted.collected⟩

/-! ## collecting again -/

theorem Collected.collect_elsewhere (h : l.Collected d) {k : Loader} (hk : k.memory.Disjoint)
    (hd : descriptorAt k.memory k.descriptor = .ok d) :
    k.collect = ({ k with modules := l.modules }, .next .validatingPlacement) := by
  rw [collect_of_clean hk hd h.clean h.some_module h.few, ← h.table]

theorem Collected.collect_moved (h : l.Collected d) (hmove : l.moveDescriptor = (l', .next p)) :
    l'.collect = (l', .next .validatingPlacement) ∧ l'.modules = l.modules := by
  rcases moveDescriptor_cases h with ⟨e, hfail⟩ | ⟨_, hc, hmoved⟩
  · rw [hmove] at hfail
    cases hfail
  · rw [hmove] at hc
    cases hc
    exact ⟨hmoved.collected.collect, by rw [hmoved.state]⟩

/-- **After a collection that succeeds, collecting again changes nothing, where the descriptor lies or
where it was moved to.**  One succeeds where there are modules, and not more than the table holds. -/
theorem collect_stable (hm : l.memory.Disjoint) :
    (∀ l' p, l.collect = (l', .next p) → ∃ d d', l.Gathered d l' d'
      ∧ l'.collect = (l', .next p)
      ∧ (∀ k : Loader, k.memory.Disjoint → descriptorAt k.memory k.descriptor = .ok d' →
          k.collect = ({ k with modules := l'.modules }, .next p))
      ∧ ∀ moved q, l'.moveDescriptor = (moved, .next q) →
          moved.collect = (moved, .next p) ∧ moved.modules = l'.modules)
    ∧ ∀ d, descriptorAt l.memory l.descriptor = .ok d →
      (l.collect.2 = .failed .capacityExceeded ↔ 32 < d.modules.length)
      ∧ (l.collect.2 = .failed .noModule ↔ d.modules = [])
      ∧ (l.collect.2 = .next .validatingPlacement ↔ d.modules ≠ [] ∧ d.modules.length ≤ 32) := by
  constructor
  · intro l' p hc
    obtain ⟨rfl, d, d', hgathered, hcollected⟩ := gathered_of_collect hm hc
    exact ⟨d, d', hgathered, hcollected.collect, fun k hk hd => hcollected.collect_elsewhere hk hd,
      fun moved q hmove => hcollected.collect_moved hmove⟩
  · intro d hd
    have hcap : ModuleTable.capacity = 32 := rfl
    rw [collect_outcome hm hd, hcap]
    by_cases hnil : d.modules = []
    · rw [if_pos hnil, hnil]
      simp
    · rw [if_neg hnil]
      by_cases hfull : 32 < d.modules.length
      · rw [if_pos hfull]
        simp [hnil, hfull]
      · rw [if_neg hfull]
        simp [hnil, Nat.not_lt.mp hfull]

/-- the command line at offset 8 is taken out, and the descriptor is moved to `0x7000`: collecting
again changes nothing before the move nor behind it -/
theorem sample_collect_stable : ((sample 0x2000).aim 0x2000).memory.Disjoint
    ∧ ∃ l' d d', ((sample 0x2000).aim 0x2000).collect = (l', .next .validatingPlacement)
      ∧ ((sample 0x2000).aim 0x2000).Gathered d l' d' ∧ d.modules.length = 2
      ∧ l'.collect = (l', .next .validatingPlacement)
      ∧ ∃ moved, l'.moveDescriptor = (moved, .next .collecting) ∧ moved.descriptor = 0x7000
        ∧ moved.collect = (moved, .next .validatingPlacement) ∧ moved.modules = l'.modules := by
  have hm : ((sample 0x2000).aim 0x2000).memory.Disjoint := sample_disjoint
  have hrun : ((sample 0x2000).aim 0x2000).collect.2 = .next .validatingPlacement := by
    decide +kernel
  have hmove : ((sample 0x2000).aim 0x2000).collect.1.moveDescriptor.2 = .next .collecting := by
    decide +kernel
  have hplace : ((sample 0x2000).aim 0x2000).collect.1.moveDescriptor.1.descriptor = 0x7000 := by
    decide +kernel
  have hcount : ∀ d ∈ (descriptorAt (sample 0x2000).memory 0x2000).toOption,
      d.modules.length = 2 := by
    decide +kernel
  rcases hc : ((sample 0x2000).aim 0x2000).collect with ⟨l', out⟩
  rw [hc] at hrun hmove hplace
  obtain rfl : out = .next .validatingPlacement := hrun
  rcases hmc : l'.moveDescriptor with ⟨moved, out⟩
  rw [hmc] at hmove hplace
  obtain rfl : out = .next .collecting := hmove
  obtain ⟨hstable, -⟩ := collect_stable hm
  obtain ⟨d, d', hgathered, hagain, -, hmoved⟩ := hstable l' _ hc
  have hincoming : descriptorAt (sample 0x2000).memory 0x2000 = .ok d := hgathered.incoming
  exact ⟨hm, l', d, d', rfl, hgathered, hcount d (by rw [hincoming]; rfl), hagain, moved, hmc, hplace,
    hmoved moved _ hmc⟩

end ChainBoot.Loader
