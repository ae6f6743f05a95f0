import LiveTree.NameMap
import LiveTree.Proofs.Octets

/-!
# Maps from names as maps

The order of names is a strict total order, so the operations on a sorted list of bindings are those
of a finite map: `alter` changes the value of one name and of no other, and the list stays sorted.
-/

namespace LiveTree

namespace NameMap

/-! ## The order of names -/

theorem before_irrefl (a : String) : before a a = false := by
  refine decide_eq_false ?_
  exact List.lt_irrefl _

theorem before_trans {a b c : String} (h : before a b = true) (h' : before b c = true) :
    before a c = true := by
  refine decide_eq_true ?_
  exact List.lt_trans (of_decide_eq_true h) (of_decide_eq_true h')

/-- Of two names one is before the other. -/
theorem before_total {a b : String} (hne : a ≠ b) (h : before a b = false) : before b a = true := by
  rcases hother : before b a with _ | _
  · refine absurd ?_ hne
    apply Bytes.octetsOf_injective
    exact List.le_antisymm (of_decide_eq_false hother) (of_decide_eq_false h)
  · rfl

theorem ne_of_before {a b : String} (h : before a b = true) : a ≠ b := by
  rintro rfl
  rw [before_irrefl] at h
  cases h

/-! ## Sorted lists of bindings -/

variable {α : Type} {m : NameMap α} {name key : String} {value : α} {f : Option α → α}

/-- The names increase. -/
def Sorted (m : NameMap α) : Prop := m.names.Pairwise (before · · = true)

theorem sorted_nil : Sorted ([] : NameMap α) := List.Pairwise.nil

theorem sorted_cons : Sorted ((key, value) :: m) ↔
    (∀ other ∈ m.names, before key other = true) ∧ Sorted m :=
  List.pairwise_cons

theorem mem_names : name ∈ m.names ↔ ∃ value, (name, value) ∈ m := by
  constructor
  · intro h
    obtain ⟨⟨key, value⟩, hmem, rfl⟩ := List.mem_map.mp h
    exact ⟨value, hmem⟩
  · rintro ⟨value, hmem⟩
    exact List.mem_map_of_mem hmem

theorem isSome_get? : (m.get? name).isSome = true ↔ name ∈ m.names := by
  induction m with
  | nil => simp [get?, names]
  | cons binding rest ih =>
      obtain ⟨key, value⟩ := binding
      unfold get?
      split
      · next he => simp [names, he]
      · next hne =>
        rw [ih]
        simp [names, Ne.symm hne]

/-- In a sorted list a name has the value that it is bound to. -/
theorem get?_eq_some (h : Sorted m) : m.get? name = some value ↔ (name, value) ∈ m := by
  induction m with
  | nil => simp [get?]
  | cons binding rest ih =>
      obtain ⟨key, first⟩ := binding
      obtain ⟨hfirst, hrest⟩ := sorted_cons.mp h
      unfold get?
      split
      · next he =>
        subst he
        constructor
        · rintro ⟨⟩
          exact List.mem_cons_self
        · intro hmem
          rcases List.mem_cons.mp hmem with heq | hmem
          · cases heq
            rfl
          · exact absurd rfl (ne_of_before (hfirst key (mem_names.mpr ⟨value, hmem⟩)))
      · next hne =>
        rw [ih hrest, List.mem_cons]
        constructor
        · exact .inr
        · rintro (heq | hmem)
          · cases heq
            exact absurd rfl hne
          · exact hmem

theorem mem_names_alter : key ∈ (m.alter name f).names ↔ key = name ∨ key ∈ m.names := by
  induction m with
  | nil => simp [alter, names]
  | cons binding rest ih =>
      obtain ⟨first, value⟩ := binding
      unfold alter
      split
      · next he => simp [names, he]
      · split
        · simp [names]
        · simp only [names, List.map_cons, List.mem_cons] at ih ⊢
          rw [ih]
          exact or_left_comm

theorem sorted_alter (h : Sorted m) : Sorted (m.alter name f) := by
  induction m with
  | nil => exact List.pairwise_singleton _ _
  | cons binding rest ih =>
      obtain ⟨first, value⟩ := binding
      obtain ⟨hfirst, hrest⟩ := sorted_cons.mp h
      unfold alter
      split
      · next he =>
        subst he
        exact sorted_cons.mpr ⟨hfirst, hrest⟩
      · next hne =>
        split
        · next hbefore =>
          refine sorted_cons.mpr ⟨?_, h⟩
          intro other hmem
          rcases List.mem_cons.mp hmem with rfl | hmem
          · exact hbefore
          · exact before_trans hbefore (hfirst other hmem)
        · next hnot =>
          refine sorted_cons.mpr ⟨?_, ih hrest⟩
          intro other hmem
          rcases mem_names_alter.mp hmem with rfl | hmem
          · exact before_total (Ne.symm hne) (by simpa using hnot)
          · exact hfirst other hmem

theorem get?_eq_none (h : name ∉ m.names) : m.get? name = none := by
  rcases hget : m.get? name with _ | value
  · rfl
  · exact absurd (isSome_get?.mp (by rw [hget]; rfl)) h

/-- `alter` changes the value of one name and of no other. -/
theorem get?_alter (h : Sorted m) :
    (m.alter name f).get? key = if key = name then some (f (m.get? name)) else m.get? key := by
  induction m with
  | nil =>
      by_cases he : key = name
      · simp [alter, get?, he]
      · simp [alter, get?, he, Ne.symm he]
  | cons binding rest ih =>
      obtain ⟨first, value⟩ := binding
      obtain ⟨hfirst, hrest⟩ := sorted_cons.mp h
      by_cases he : first = name
      · subst he
        by_cases hk : key = first
        · simp [alter, get?, hk]
        · simp [alter, get?, hk, Ne.symm hk]
      · by_cases hbefore : before name first = true
        · -- no later binding is of the name
          have hnot : name ∉ NameMap.names ((first, value) :: rest) := by
            intro hmem
            rcases List.mem_cons.mp hmem with rfl | hmem
            · exact he rfl
            · exact absurd rfl (ne_of_before (before_trans hbefore (hfirst name hmem)))
          rw [get?_eq_none hnot]
          by_cases hk : key = name
          · simp [alter, get?, he, hbefore, hk]
          · simp [alter, get?, he, hbefore, hk, Ne.symm hk]
        · have hstep : alter ((first, value) :: rest) name f =
              (first, value) :: alter rest name f := by
            simp [alter, he, hbefore]
          rw [hstep]
          by_cases hk : key = first
          · subst hk
            simp [get?, he]
          · simp only [get?, Ne.symm hk, he, if_false]
            exact ih hrest

/-- All that matters of a change is what it makes of the value that the name has. -/
theorem alter_congr (h : Sorted m) {g : Option α → α} (hfg : f (m.get? name) = g (m.get? name)) :
    m.alter name f = m.alter name g := by
  induction m with
  | nil =>
      show [(name, f none)] = [(name, g none)]
      exact congrArg (fun value => [(name, value)]) hfg
  | cons binding rest ih =>
      obtain ⟨first, value⟩ := binding
      obtain ⟨hfirst, hrest⟩ := sorted_cons.mp h
      unfold alter
      unfold get? at hfg
      split
      · next he =>
        rw [if_pos he] at hfg
        rw [hfg]
      · next hne =>
        rw [if_neg hne] at hfg
        split
        · next hbefore =>
          -- the name has no value, as all that follow come later
          have hnot : name ∉ NameMap.names rest := by
            intro hmem
            exact ne_of_before (before_trans hbefore (hfirst name hmem)) rfl
          rw [get?_eq_none hnot] at hfg
          rw [hfg]
        · rw [ih hrest hfg]

/-- A name that keeps its value changes nothing. -/
theorem alter_eq_self (h : Sorted m) (hget : m.get? name = some value)
    (hf : f (some value) = value) : m.alter name f = m := by
  induction m with
  | nil => cases hget
  | cons binding rest ih =>
      obtain ⟨first, other⟩ := binding
      obtain ⟨hfirst, hrest⟩ := sorted_cons.mp h
      unfold alter
      unfold get? at hget
      split
      · next he =>
        rw [if_pos he] at hget
        cases hget
        rw [hf, he]
      · next hne =>
        rw [if_neg hne] at hget
        have hmem : name ∈ NameMap.names rest := isSome_get?.mp (by rw [hget]; rfl)
        rw [if_neg, ih hrest hget]
        intro hbefore
        exact ne_of_before (before_trans hbefore (hfirst name hmem)) rfl

theorem mem_names_erase : key ∈ (m.erase name).names ↔ key ≠ name ∧ key ∈ m.names := by
  rw [mem_names, mem_names]
  constructor
  · rintro ⟨value, hmem⟩
    obtain ⟨hmem, hne⟩ := List.mem_filter.mp hmem
    exact ⟨by simpa using hne, value, hmem⟩
  · rintro ⟨hne, value, hmem⟩
    exact ⟨value, List.mem_filter.mpr ⟨hmem, by simpa using hne⟩⟩

theorem sorted_erase (h : Sorted m) : Sorted (m.erase name) :=
  List.Pairwise.sublist (List.filter_sublist.map _) h

end NameMap

end LiveTree
