/-!
Directories: finite maps from names to values, kept in ascending order of the names.  Names are
compared by code point, which is also the order of their UTF-8 bytes.  Since the order is part of
the type, two directories with the same entries are equal whatever the order of the insertions.
-/

namespace FeatureGates

structure Directory (α : Type) where
  entries : List (String × α)
  ascending : entries.Pairwise (fun a b => a.1 < b.1)

namespace Directory

variable {α β : Type}

def empty : Directory α := ⟨[], List.Pairwise.nil⟩

instance : Inhabited (Directory α) := ⟨empty⟩

/-- Puts an entry at its place in an ascending list, over an entry of the same name. -/
def place (name : String) (value : α) : List (String × α) → List (String × α)
  | [] => [(name, value)]
  | entry :: rest =>
    if name < entry.1 then (name, value) :: entry :: rest
    else if entry.1 < name then entry :: place name value rest
    else (name, value) :: rest

theorem eq_of_not_lt {a b : String} (hab : ¬a < b) (hba : ¬b < a) : a = b :=
  String.le_antisymm (String.not_lt.mp hba) (String.not_lt.mp hab)

theorem of_mem_place {name : String} {value : α} {l : List (String × α)} {entry : String × α}
    (h : entry ∈ place name value l) : entry = (name, value) ∨ entry ∈ l := by
  induction l with
  | nil => exact Or.inl (by simpa [place] using h)
  | cons first rest ih =>
    simp only [place] at h
    split at h
    · simpa using h
    · split at h
      · rcases List.mem_cons.mp h with rfl | h
        · exact Or.inr List.mem_cons_self
        · exact (ih h).imp_right (List.mem_cons_of_mem first)
      · rcases List.mem_cons.mp h with rfl | h
        · exact Or.inl rfl
        · exact Or.inr (List.mem_cons_of_mem first h)

theorem ascending_place (name : String) (value : α) {l : List (String × α)}
    (h : l.Pairwise (fun a b => a.1 < b.1)) :
    (place name value l).Pairwise (fun a b => a.1 < b.1) := by
  induction l with
  | nil => simp [place]
  | cons first rest ih =>
    obtain ⟨hfirst, hrest⟩ := List.pairwise_cons.mp h
    simp only [place]
    split
    · rename_i hlt
      refine List.pairwise_cons.mpr ⟨fun entry he => ?_, h⟩
      rcases List.mem_cons.mp he with rfl | he
      · exact hlt
      · exact String.lt_trans hlt (hfirst entry he)
    · split
      · rename_i hgt
        refine List.pairwise_cons.mpr ⟨fun entry he => ?_, ih hrest⟩
        rcases of_mem_place he with rfl | he
        · exact hgt
        · exact hfirst entry he
      · rename_i hlt hgt
        obtain rfl := eq_of_not_lt hlt hgt
        exact List.pairwise_cons.mpr ⟨hfirst, hrest⟩

/-- Adds an entry, or replaces the value of the entry with this very name. -/
def insert (d : Directory α) (name : String) (value : α) : Directory α :=
  ⟨place name value d.entries, ascending_place name value d.ascending⟩

def find? (d : Directory α) (name : String) : Option α :=
  (d.entries.find? (·.1 = name)).map (·.2)

def names (d : Directory α) : List String := d.entries.map (·.1)

def isEmpty (d : Directory α) : Bool := d.entries.isEmpty

/-- Later entries win over earlier ones of the same name. -/
def ofList (l : List (String × α)) : Directory α :=
  l.foldl (fun d entry => d.insert entry.1 entry.2) empty

/-- Keeps the entries that satisfy `p`. -/
def filter (d : Directory α) (p : String → α → Bool) : Directory α :=
  ⟨d.entries.filter fun entry => p entry.1 entry.2, d.ascending.filter _⟩

/-- Changes every value and no name. -/
def map (d : Directory α) (f : String → α → β) : Directory β :=
  ⟨d.entries.map fun entry => (entry.1, f entry.1 entry.2), by
    rw [List.pairwise_map]
    exact d.ascending⟩

theorem ext_entries {d e : Directory α} (h : d.entries = e.entries) : d = e := by
  cases d
  cases e
  congr

theorem find?_place (name other : String) (value : α) (l : List (String × α)) :
    ((place name value l).find? (·.1 = other)).map (·.2) =
      if name = other then some value else (l.find? (·.1 = other)).map (·.2) := by
  induction l with
  | nil => by_cases h : name = other <;> simp [place, h]
  | cons first rest ih =>
    simp only [place]
    split
    · by_cases h : name = other <;> simp [h]
    · split
      · rename_i hgt
        by_cases hf : first.1 = other
        · have hne : name ≠ other := by
            rintro rfl
            exact String.lt_irrefl _ (hf ▸ hgt)
          simp [hf, hne]
        · simpa [List.find?_cons, hf] using ih
      · rename_i hlt hgt
        obtain rfl := eq_of_not_lt hlt hgt
        by_cases h : first.1 = other <;> simp [h]

/-- What is found after an insertion: the new value under the new name, and otherwise what was
found before. -/
theorem find?_insert (d : Directory α) (name other : String) (value : α) :
    (d.insert name value).find? other = if name = other then some value else d.find? other :=
  find?_place name other value d.entries

end Directory
end FeatureGates
