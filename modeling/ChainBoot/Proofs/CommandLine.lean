import Mathlib.Data.List.TakeWhile
import ChainBoot.Options
import ChainBoot.Proofs.Size

/-!
# Command lines, word by word

What a command line sets is stated without a parser.

* `Split`   how characters fall into words;
* `Sets`    a word sets an option;
* `Idle`    a word sets none: it is for somebody else, or its value is malformed.

Every word is of one of the last two kinds (`idle_iff`).  For each key the last word that sets it
decides (`value_foldl`), so command lines compose:

* `ofCmdline_composes`   of two command lines one behind the other the second decides where it says
                         something, and the first elsewhere; idle words do not matter anywhere.
-/

namespace ChainBoot.Options

/-! ## words -/

/-- how characters fall into words: runs without blanks, as long as they can be -/
inductive Split : List Char → List (List Char) → Prop
  | nil : Split [] []
  | blank {c : Char} {cs : List Char} {ws : List (List Char)} :
      isBlank c = true → Split cs ws → Split (c :: cs) ws
  | word {w cs : List Char} {ws : List (List Char)} : w ≠ [] → (∀ c ∈ w, isBlank c = false) →
      (∀ c ∈ cs.head?, isBlank c = true) → Split cs ws → Split (w ++ cs) (w :: ws)

section
variable {word cs : List Char} {c : Char}

theorem wordsFrom_blank (h : isBlank c = true) :
    wordsFrom word (c :: cs) = finished word ++ wordsFrom [] cs := if_pos h

theorem wordsFrom_plain (h : isBlank c = false) :
    wordsFrom word (c :: cs) = wordsFrom (c :: word) cs :=
  if_neg (Bool.eq_false_iff.mp h)

end

theorem wordsFrom_append {b : Char} (hb : isBlank b = true) (word cs cs' : List Char) :
    wordsFrom word (cs ++ b :: cs') = wordsFrom word cs ++ wordsFrom [] cs' := by
  induction cs generalizing word with
  | nil => exact wordsFrom_blank hb
  | cons c cs ih =>
    rw [List.cons_append]
    cases hc : isBlank c with
    | true => rw [wordsFrom_blank hc, wordsFrom_blank hc, ih, List.append_assoc]
    | false => rw [wordsFrom_plain hc, wordsFrom_plain hc, ih]

theorem words_append {b : Char} (hb : isBlank b = true) (cs cs' : List Char) :
    words (cs ++ b :: cs') = words cs ++ words cs' := wordsFrom_append hb [] cs cs'

theorem wordsFrom_word {w : List Char} (hw : ∀ c ∈ w, isBlank c = false) (word cs : List Char) :
    wordsFrom word (w ++ cs) = wordsFrom (w.reverse ++ word) cs := by
  induction w generalizing word with
  | nil => rfl
  | cons c w ih =>
    obtain ⟨hc, hw⟩ := List.forall_mem_cons.mp hw
    rw [List.cons_append, wordsFrom_plain hc, ih hw, List.reverse_cons, List.append_assoc,
      List.singleton_append]

theorem finished_of_ne_nil {word : List Char} (h : word ≠ []) : finished word = [word.reverse] := by
  cases word with
  | nil => exact absurd rfl h
  | cons c cs => rfl

theorem words_of_split {ws : List (List Char)} {cs : List Char} (h : Split cs ws) :
    words cs = ws := by
  induction h with
  | nil => rfl
  | blank hc _ ih => exact (wordsFrom_blank hc).trans ih
  | @word w cs ws hne hclean hnext _ ih =>
    have hfinished : finished w.reverse = [w] := by
      rw [finished_of_ne_nil (by simpa using hne), List.reverse_reverse]
    have hstart : words (w ++ cs) = wordsFrom w.reverse cs := by
      rw [words, wordsFrom_word hclean, List.append_nil]
    rw [hstart, ← ih]
    cases cs with
    | nil => exact hfinished
    | cons c cs =>
      have hc : isBlank c = true := hnext c rfl
      rw [words, wordsFrom_blank hc, wordsFrom_blank hc, hfinished]
      rfl

theorem Split.finished {word cs : List Char} {ws : List (List Char)}
    (hword : ∀ c ∈ word, isBlank c = false) (hnext : ∀ c ∈ cs.head?, isBlank c = true)
    (h : Split cs ws) : Split (word.reverse ++ cs) (Options.finished word ++ ws) := by
  by_cases hne : word = []
  · rw [hne]
    exact h
  · rw [finished_of_ne_nil hne]
    exact .word (by simpa using hne) (fun c hc => hword c (List.mem_reverse.mp hc)) hnext h

theorem split_wordsFrom (word cs : List Char) (hword : ∀ c ∈ word, isBlank c = false) :
    Split (word.reverse ++ cs) (wordsFrom word cs) := by
  induction cs generalizing word with
  | nil =>
    rw [wordsFrom, ← List.append_nil (Options.finished word)]
    exact Split.finished hword (fun c hc => nomatch hc) .nil
  | cons c cs ih =>
    cases hc : isBlank c with
    | true =>
      rw [wordsFrom_blank hc]
      refine Split.finished hword (fun b hb => ?_)
        (.blank hc (ih [] fun b hb => absurd hb List.not_mem_nil))
      rw [List.head?_cons, Option.mem_some_iff] at hb
      exact hb ▸ hc
    | false =>
      rw [wordsFrom_plain hc]
      have hsplit := ih (c :: word) (List.forall_mem_cons.mpr ⟨hc, hword⟩)
      rwa [List.reverse_cons, List.append_assoc, List.singleton_append] at hsplit

/-- **The words of a text are its runs without blanks.** -/
theorem words_eq_iff {cs : List Char} {ws : List (List Char)} : words cs = ws ↔ Split cs ws := by
  constructor
  · rintro rfl
    exact split_wordsFrom [] cs fun c hc => absurd hc List.not_mem_nil
  · exact words_of_split

/-! ## keys and values -/

theorem keyValue?_append {key value : List Char} (hkey : '=' ∉ key) :
    keyValue? (key ++ '=' :: value) = some (key, value) := by
  have hclean : ∀ c ∈ key, (c != '=') = true := fun c hc =>
    bne_iff_ne.mpr fun h => hkey (h ▸ hc)
  unfold keyValue?
  rw [List.dropWhile_append_of_pos hclean, List.takeWhile_append_of_pos hclean,
    List.dropWhile_cons_of_neg (by decide), List.takeWhile_cons_of_neg (by decide), List.append_nil]

theorem keyValue?_of_bare {w : List Char} (h : '=' ∉ w) : keyValue? w = none := by
  have hclean : ∀ c ∈ w, (c != '=') = true := fun c hc => bne_iff_ne.mpr fun he => h (he ▸ hc)
  unfold keyValue?
  rw [List.dropWhile_eq_nil_iff.mpr hclean]

/-! ## what a word sets -/

/-- the names that a threshold goes by -/
def levelNames : List (String × Threshold) :=
  [("off", .off), ("error", .upTo .error), ("warn", .upTo .warn), ("info", .upTo .info),
   ("debug", .upTo .debug), ("trace", .upTo .trace)]

theorem toNat_toLower (c : Char) :
    c.toLower.toNat = if 65 ≤ c.toNat ∧ c.toNat ≤ 90 then c.toNat + 32 else c.toNat := by
  unfold Char.toLower
  split
  · rename_i h
    have h : 65 ≤ c.toNat ∧ c.toNat ≤ 90 := h
    have hadd : (c.val + 32).toNat = (c.toNat + 32) % 2 ^ 32 := UInt32.toNat_add ..
    rw [if_pos h]
    refine hadd.trans ?_
    omega
  · rename_i h
    exact (if_neg h).symm

theorem toNat_toUpper (c : Char) :
    c.toUpper.toNat = if 97 ≤ c.toNat ∧ c.toNat ≤ 122 then c.toNat - 32 else c.toNat := by
  unfold Char.toUpper
  split
  · rename_i h
    have h : 97 ≤ c.toNat ∧ c.toNat ≤ 122 := h
    -- the distance to the capitals is added as a word that wraps
    have hadd : (c.val + 4294967264).toNat = (c.toNat + 4294967264) % 2 ^ 32 := UInt32.toNat_add ..
    rw [if_pos h]
    refine hadd.trans ?_
    omega
  · rename_i h
    exact (if_neg h).symm

theorem toLower_eq_iff (c d : Char) : c.toLower = d.toLower ↔ c.toUpper = d.toUpper := by
  rw [← Char.toNat_inj, ← Char.toNat_inj, toNat_toLower, toNat_toLower, toNat_toUpper,
    toNat_toUpper]
  split_ifs <;> omega

theorem map_toLower_eq_iff (cs cs' : List Char) :
    cs.map Char.toLower = cs'.map Char.toLower ↔ cs.map Char.toUpper = cs'.map Char.toUpper := by
  induction cs generalizing cs' with
  | nil => simp
  | cons c cs ih =>
    cases cs' with
    | nil => simp
    | cons c' cs' =>
      rw [List.map_cons, List.map_cons, List.map_cons, List.map_cons, List.cons.injEq,
        List.cons.injEq, toLower_eq_iff, ih]

theorem ofName?_iff_upper {v : List Char} {t : Threshold} :
    Threshold.ofName? v = some t ↔ v.map Char.toUpper = t.name.toList := by
  constructor
  · intro h
    rw [Threshold.ofName?, List.find?_eq_some_iff_append] at h
    exact (beq_iff_eq.mp h.1).symm
  · intro h
    unfold Threshold.ofName?
    rw [h]
    rcases t with - | ⟨- | - | - | - | -⟩ <;> decide

theorem ofName?_eq_some_iff {v : List Char} {t : Threshold} : Threshold.ofName? v = some t ↔
    ∃ name, (name, t) ∈ levelNames ∧ v.map Char.toLower = name.toList := by
  have hcases : ∀ e ∈ levelNames, e.1.toList.map Char.toLower = e.1.toList
      ∧ e.1.toList.map Char.toUpper = e.2.name.toList := by
    decide
  have hnamed : ∃ e ∈ levelNames, e.2 = t := by
    rcases t with - | ⟨- | - | - | - | -⟩ <;> decide
  rw [ofName?_iff_upper]
  constructor
  · intro h
    obtain ⟨⟨name, t⟩, hname, rfl⟩ := hnamed
    obtain ⟨hlower, hupper⟩ := hcases _ hname
    refine ⟨name, hname, ?_⟩
    rw [← hlower, map_toLower_eq_iff, h, hupper]
  · rintro ⟨name, hname, hv⟩
    obtain ⟨hlower, hupper⟩ := hcases _ hname
    rw [← hupper, ← map_toLower_eq_iff, hv, hlower]

/-- a word that sets an option -/
inductive Sets : List Char → Setting → Prop
  | physMax {value : List Char} {n f : Nat} {a : Address} : Size.Denotes value n f → a.val = n * f →
      0 < a.val → Sets ("phys_max=".toList ++ value) (.physMax a)
  | threshold {value : List Char} {name : String} {t : Threshold} : (name, t) ∈ levelNames →
      value.map Char.toLower = name.toList → Sets ("loglevel=".toList ++ value) (.threshold t)

/-- a word that sets no option -/
inductive Idle : List Char → Prop
  | bare {w : List Char} : '=' ∉ w → Idle w
  | foreign {key value : List Char} : '=' ∉ key → key ≠ "phys_max".toList →
      key ≠ "loglevel".toList → Idle (key ++ '=' :: value)
  | physMax {value : List Char} :
      (∀ n f, Size.Denotes value n f → n * f = 0 ∨ 2 ^ 64 ≤ n * f) →
      Idle ("phys_max=".toList ++ value)
  | threshold {value : List Char} : (∀ e ∈ levelNames, value.map Char.toLower ≠ e.1.toList) →
      Idle ("loglevel=".toList ++ value)

theorem readWord_physMax (value : List Char) :
    readWord ("phys_max=".toList ++ value) = readPhysMax value := by
  have hkey : keyValue? ("phys_max=".toList ++ value) = some ("phys_max".toList, value) :=
    keyValue?_append (by decide : '=' ∉ "phys_max".toList)
  unfold readWord
  rw [hkey]
  rfl

theorem readWord_threshold (value : List Char) :
    readWord ("loglevel=".toList ++ value) = readThreshold value := by
  have hkey : keyValue? ("loglevel=".toList ++ value) = some ("loglevel".toList, value) :=
    keyValue?_append (by decide : '=' ∉ "loglevel".toList)
  unfold readWord
  rw [hkey]
  rfl

theorem readPhysMax_iff {value : List Char} {s : Setting} : (readPhysMax value).setting? = some s ↔
    ∃ a, Size.parse? value = some a ∧ a ≠ .zero ∧ .physMax a = s := by
  unfold readPhysMax
  cases Size.parse? value with
  | none => simp [Reading.setting?]
  | some a =>
    by_cases ha : a = .zero
    · simp [Reading.setting?, ha]
    · simp [Reading.setting?, ha]

theorem readThreshold_iff {value : List Char} {s : Setting} :
    (readThreshold value).setting? = some s ↔
      ∃ t, Threshold.ofName? value = some t ∧ .threshold t = s := by
  unfold readThreshold
  cases Threshold.ofName? value with
  | none => simp [Reading.setting?]
  | some t => simp [Reading.setting?]

theorem setting?_of_sets {w : List Char} {s : Setting} (h : Sets w s) :
    (readWord w).setting? = some s := by
  cases h with
  | @physMax value n f a hden ha hpos =>
    have hlt : n * f < 2 ^ 64 := ha ▸ a.isLt
    have hne : a ≠ Address.zero := fun hz => Nat.lt_irrefl 0 (hz ▸ hpos : 0 < Address.zero.val)
    rw [readWord_physMax, readPhysMax_iff]
    exact ⟨a, Size.parse?_eq_some_iff.mpr ⟨n, f, hden, hlt, ha⟩, hne, rfl⟩
  | threshold hname hv =>
    rw [readWord_threshold, readThreshold_iff]
    exact ⟨_, ofName?_eq_some_iff.mpr ⟨_, hname, hv⟩, rfl⟩

theorem setting?_of_idle {w : List Char} (h : Idle w) : (readWord w).setting? = none := by
  cases h with
  | bare hw =>
    unfold readWord
    rw [keyValue?_of_bare hw]
    rfl
  | foreign hkey hp hl =>
    unfold readWord
    rw [keyValue?_append hkey]
    dsimp only
    rw [if_neg hp, if_neg hl]
    rfl
  | physMax hbad =>
    rw [readWord_physMax, Option.eq_none_iff_forall_ne_some]
    intro s hs
    obtain ⟨a, ha, hne, -⟩ := readPhysMax_iff.mp hs
    obtain ⟨n, f, hden, hlt, hval⟩ := Size.parse?_eq_some_iff.mp ha
    rcases hbad n f hden with hzero | hlarge
    · exact hne (Fin.ext (hval.trans hzero))
    · omega
  | threshold hbad =>
    rw [readWord_threshold, Option.eq_none_iff_forall_ne_some]
    intro s hs
    obtain ⟨t, ht, -⟩ := readThreshold_iff.mp hs
    obtain ⟨name, hname, hv⟩ := ofName?_eq_some_iff.mp ht
    exact hbad _ hname hv

theorem sets_or_idle (w : List Char) : (∃ s, Sets w s) ∨ Idle w := by
  by_cases hw : '=' ∈ w
  · obtain ⟨key, value, rfl, hkey⟩ := List.eq_append_cons_of_mem hw
    by_cases hp : key = "phys_max".toList
    · subst hp
      by_cases hgood : ∃ n f, Size.Denotes value n f ∧ n * f ≠ 0 ∧ n * f < 2 ^ 64
      · obtain ⟨n, f, hden, hne, hlt⟩ := hgood
        have hpos : 0 < (⟨n * f, hlt⟩ : Address).val := Nat.pos_of_ne_zero hne
        exact .inl ⟨_, .physMax hden rfl hpos⟩
      · refine .inr (.physMax fun n f hden => ?_)
        by_cases hzero : n * f = 0
        · exact .inl hzero
        · exact .inr (Nat.not_lt.mp fun hlt => hgood ⟨n, f, hden, hzero, hlt⟩)
    by_cases hl : key = "loglevel".toList
    · subst hl
      by_cases hgood : ∃ e ∈ levelNames, value.map Char.toLower = e.1.toList
      · obtain ⟨e, he, hv⟩ := hgood
        exact .inl ⟨_, .threshold he hv⟩
      · exact .inr (.threshold fun e he hv => hgood ⟨e, he, hv⟩)
    · exact .inr (.foreign hkey hp hl)
  · exact .inr (.bare hw)

/-- **A word sets what it is read as.** -/
theorem setting?_eq_some_iff {w : List Char} {s : Setting} :
    (readWord w).setting? = some s ↔ Sets w s := by
  refine ⟨fun h => ?_, setting?_of_sets⟩
  rcases sets_or_idle w with ⟨s', hs⟩ | hidle
  · rw [setting?_of_sets hs, Option.some.injEq] at h
    exact h ▸ hs
  · rw [setting?_of_idle hidle] at h
    cases h

/-- the words that set nothing are those that are bare, foreign or malformed -/
theorem idle_iff {w : List Char} : Idle w ↔ ∀ s, ¬ Sets w s := by
  constructor
  · intro hidle s hs
    have hread := setting?_of_sets hs
    rw [setting?_of_idle hidle] at hread
    cases hread
  · intro hnone
    exact (sets_or_idle w).resolve_left fun ⟨s, hs⟩ => hnone s hs

/-! ## the last setting of a key -/

inductive Key where
  | physMax
  | threshold
deriving DecidableEq

def Setting.key : Setting → Key
  | .physMax _ => .physMax
  | .threshold _ => .threshold

/-- what a key stands at, as the setting that would give it -/
def value (o : Options) : Key → Setting
  | .physMax => .physMax o.physMax
  | .threshold => .threshold o.threshold

theorem value_apply (o : Options) (s : Setting) (k : Key) :
    (o.apply s).value k = if s.key = k then s else o.value k := by
  cases s <;> cases k <;> rfl

/-- **The last setting of a key decides.** -/
theorem value_foldl (o : Options) (ss : List Setting) (k : Key) :
    (ss.foldl apply o).value k = (ss.filter fun s => s.key = k).getLast?.getD (o.value k) := by
  induction ss generalizing o with
  | nil => rfl
  | cons s ss ih =>
    rw [List.foldl_cons, ih, value_apply]
    by_cases hk : s.key = k
    · rw [if_pos hk, List.filter_cons_of_pos (by simpa using hk), List.getLast?_cons,
        Option.getD_some]
    · rw [if_neg hk, List.filter_cons_of_neg (by simpa using hk)]

theorem value_foldl_of_mem {ss : List Setting} {s : Setting} (hs : s ∈ ss) (o o' : Options) :
    (ss.foldl apply o).value s.key = (ss.foldl apply o').value s.key := by
  rw [value_foldl, value_foldl]
  cases hlast : (ss.filter fun u => u.key = s.key).getLast? with
  | none =>
    have hnil := List.getLast?_eq_none_iff.mp hlast
    have hmem : s ∈ ss.filter fun u => u.key = s.key := List.mem_filter.mpr ⟨hs, by simp⟩
    rw [hnil] at hmem
    exact absurd hmem List.not_mem_nil
  | some u => rfl

theorem value_foldl_of_not_mem {ss : List Setting} {k : Key} (h : ∀ s ∈ ss, s.key ≠ k)
    (o : Options) : (ss.foldl apply o).value k = o.value k := by
  have hnil : (ss.filter fun s => s.key = k) = [] :=
    List.filter_eq_nil_iff.mpr fun s hs => by simpa using h s hs
  rw [value_foldl, hnil]
  rfl

/-! ## command lines -/

/-- some word of a text sets an option of this key -/
def Mentions (text : String) (k : Key) : Prop :=
  ∃ ws, Split text.toList ws ∧ ∃ w ∈ ws, ∃ s, Sets w s ∧ s.key = k

theorem settings_of_split {cs : List Char} {ws : List (List Char)} (h : Split cs ws) :
    settings cs = ws.filterMap fun w => (readWord w).setting? := by
  rw [settings, words_of_split h]

theorem mentions_iff {text : String} {k : Key} :
    Mentions text k ↔ ∃ s ∈ settings text.toList, s.key = k := by
  constructor
  · rintro ⟨ws, hws, w, hw, s, hs, hk⟩
    rw [settings_of_split hws]
    exact ⟨s, List.mem_filterMap.mpr ⟨w, hw, setting?_of_sets hs⟩, hk⟩
  · rintro ⟨s, hs, hk⟩
    obtain ⟨w, hw, hread⟩ := List.mem_filterMap.mp hs
    exact ⟨_, words_eq_iff.mp rfl, w, hw, s, setting?_eq_some_iff.mp hread, hk⟩

theorem ofCmdline_append (a b : String) :
    ofCmdline (a ++ " " ++ b) = (settings b.toList).foldl apply (ofCmdline a) := by
  have hchars : (a ++ " " ++ b).toList = a.toList ++ ' ' :: b.toList := by
    rw [String.toList_append, String.toList_append, List.append_assoc]
    rfl
  unfold ofCmdline settings
  rw [hchars, words_append (by decide), List.filterMap_append, List.foldl_append]

/-- **Command lines compose, and the last word that sets an option decides.**  Words that set none
can be put in or taken out anywhere. -/
theorem ofCmdline_composes :
    (∀ (a b : String) (k : Key),
      (Mentions b k → (ofCmdline (a ++ " " ++ b)).value k = (ofCmdline b).value k)
      ∧ (¬ Mentions b k → (ofCmdline (a ++ " " ++ b)).value k = (ofCmdline a).value k))
    ∧ (∀ (text : String) (pre post : List (List Char)) (w : List Char) (s : Setting),
        Split text.toList (pre ++ w :: post) → Sets w s →
        (∀ u ∈ post, ∀ s', Sets u s' → s'.key ≠ s.key) → (ofCmdline text).value s.key = s)
    ∧ (∀ (text : String) (k : Key), ¬ Mentions text k → (ofCmdline text).value k = standard.value k)
    ∧ (∀ (text text' : String) (pre post : List (List Char)) (w : List Char),
        Split text.toList (pre ++ post) → Split text'.toList (pre ++ w :: post) → Idle w →
        ofCmdline text' = ofCmdline text)
    ∧ (∀ w, Idle w ↔ ∀ s, ¬ Sets w s)
    ∧ ∀ text : String, ∃ ws, Split text.toList ws ∧ ∀ ws', Split text.toList ws' → ws' = ws := by
  have hunset : ∀ {text : String} {k : Key}, ¬ Mentions text k →
      ∀ s ∈ settings text.toList, s.key ≠ k := fun h s hs hk => h (mentions_iff.mpr ⟨s, hs, hk⟩)
  refine ⟨fun a b k => ⟨fun h => ?_, fun h => ?_⟩, fun text pre post w s hsplit hs hlast => ?_,
    fun text k h => value_foldl_of_not_mem (hunset h) standard,
    fun text text' pre post w hsplit hsplit' hidle => ?_, fun w => idle_iff,
    fun text => ⟨_, words_eq_iff.mp rfl, fun ws' h => (words_of_split h).symm⟩⟩
  · obtain ⟨s, hs, rfl⟩ := mentions_iff.mp h
    rw [ofCmdline_append]
    exact value_foldl_of_mem hs _ _
  · rw [ofCmdline_append]
    exact value_foldl_of_not_mem (hunset h) _
  · have hread : (readWord w).setting? = some s := setting?_of_sets hs
    rw [ofCmdline, settings_of_split hsplit, List.filterMap_append, List.filterMap_cons, hread,
      List.foldl_append, List.foldl_cons, value_foldl_of_not_mem, value_apply, if_pos rfl]
    intro s' hs'
    obtain ⟨u, hu, hread⟩ := List.mem_filterMap.mp hs'
    exact hlast u hu s' (setting?_eq_some_iff.mp hread)
  · have hread : (readWord w).setting? = none := setting?_of_idle hidle
    rw [ofCmdline, ofCmdline, settings_of_split hsplit, settings_of_split hsplit',
      List.filterMap_append, List.filterMap_append, List.filterMap_cons, hread]

/-- a malformed limit and a foreign word behind a good line leave its limit standing -/
theorem sampleLines_compose :
    (ofCmdline ("phys_max=0x10K loglevel=debug" ++ " " ++ "vga phys_max=1T loglevel=WARN")).value
        .threshold = (ofCmdline "vga phys_max=1T loglevel=WARN").value .threshold
      ∧ (ofCmdline ("phys_max=0x10K loglevel=debug" ++ " " ++ "vga phys_max=1T loglevel=WARN")).value
        .physMax = (ofCmdline "phys_max=0x10K loglevel=debug").value .physMax
      ∧ (ofCmdline "phys_max=0x10K\tphys_max=0").value .physMax = .physMax ⟨0x4000, by decide⟩
      ∧ (ofCmdline "phys_max=1T").value .physMax = standard.value .physMax
      ∧ ofCmdline "phys_max=0x10K\tphys_max=0" = ofCmdline "phys_max=0x10K" := by
  obtain ⟨happend, hlast, hunset, hidle, hsilent, -⟩ := ofCmdline_composes
  -- the word that is in one of the last two lines only
  have hzero : Idle "phys_max=0".toList :=
    (hsilent _).mpr fun s hs => by
      have hread : (readWord "phys_max=0".toList).setting? = none := by decide +kernel
      rw [setting?_of_sets hs] at hread
      cases hread
  have hgood : Sets "phys_max=0x10K".toList (.physMax ⟨0x4000, by decide⟩) :=
    setting?_eq_some_iff.mp (by decide +kernel)
  refine ⟨(happend _ _ _).1 (mentions_iff.mpr (by decide +kernel)),
    (happend _ _ _).2 (mt mentions_iff.mp (by decide +kernel)),
    hlast _ [] ["phys_max=0".toList] _ _ (words_eq_iff.mp (by decide +kernel)) hgood ?_,
    hunset _ _ (mt mentions_iff.mp (by decide +kernel)),
    hidle _ _ ["phys_max=0x10K".toList] [] _ (words_eq_iff.mp (by decide +kernel))
      (words_eq_iff.mp (by decide +kernel)) hzero⟩
  intro u hu s hs
  rw [List.mem_singleton.mp hu] at hs
  exact absurd hs ((hsilent _).mp hzero s)

end ChainBoot.Options
