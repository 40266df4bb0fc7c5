import CalcShell.Bytes

/-!
Tables from names to values, kept in increasing byte order of the names, so that listing a table
is independent of the order in which it was filled.
-/
namespace CalcShell

structure Table (α : Type) where
  entries : List (Bytes × α)
  increasing : entries.Pairwise fun a b => a.1 < b.1

namespace Table

variable {α : Type}

/-- Puts an entry at its place in a list that is ordered by name, over an entry of that name. -/
def insertEntry (name : Bytes) (value : α) : List (Bytes × α) → List (Bytes × α)
  | [] => [(name, value)]
  | entry :: rest =>
    if name < entry.1 then (name, value) :: entry :: rest
    else if name = entry.1 then (name, value) :: rest
    else entry :: insertEntry name value rest

theorem mem_insertEntry {name : Bytes} {value : α} {entries : List (Bytes × α)} {e : Bytes × α}
    (h : e ∈ insertEntry name value entries) : e = (name, value) ∨ e ∈ entries := by
  induction entries with
  | nil => simpa [insertEntry] using h
  | cons entry rest ih =>
    simp only [insertEntry] at h
    split at h
    · simpa using h
    · split at h
      · rcases List.mem_cons.1 h with h | h
        · exact .inl h
        · exact .inr (List.mem_cons_of_mem _ h)
      · rcases List.mem_cons.1 h with h | h
        · exact .inr (h ▸ List.mem_cons_self)
        · exact (ih h).imp_right (List.mem_cons_of_mem _)

theorem pairwise_insertEntry (name : Bytes) (value : α) {entries : List (Bytes × α)}
    (h : entries.Pairwise fun a b => a.1 < b.1) :
    (insertEntry name value entries).Pairwise fun a b => a.1 < b.1 := by
  induction entries with
  | nil => simp [insertEntry]
  | cons entry rest ih =>
    obtain ⟨below, tail⟩ := List.pairwise_cons.1 h
    simp only [insertEntry]
    split
    · rename_i less
      refine List.pairwise_cons.2 ⟨fun e he => ?_, h⟩
      rcases List.mem_cons.1 he with he | he
      · exact he ▸ less
      · exact List.lt_trans less (below e he)
    · rename_i notLess
      split
      · rename_i same
        exact List.pairwise_cons.2 ⟨fun e he => same ▸ below e he, tail⟩
      · rename_i other
        refine List.pairwise_cons.2 ⟨fun e he => ?_, ih tail⟩
        rcases mem_insertEntry he with he | he
        · subst he
          exact Std.lt_of_le_of_ne (List.not_lt.1 notLess) (Ne.symm other)
        · exact below e he

def empty : Table α := ⟨[], .nil⟩

instance : Inhabited (Table α) := ⟨empty⟩

def find? (table : Table α) (name : Bytes) : Option α := table.entries.lookup name

def keys (table : Table α) : List Bytes := table.entries.map (·.1)

def insert (table : Table α) (name : Bytes) (value : α) : Table α :=
  ⟨insertEntry name value table.entries, pairwise_insertEntry name value table.increasing⟩

def ofList (entries : List (Bytes × α)) : Table α :=
  entries.foldl (fun table (name, value) => table.insert name value) empty

@[simp] theorem entries_empty : (empty : Table α).entries = [] := rfl

@[simp] theorem find?_empty (name : Bytes) : (empty : Table α).find? name = none := rfl

@[simp] theorem entries_insert (table : Table α) (name : Bytes) (value : α) :
    (table.insert name value).entries = insertEntry name value table.entries := rfl

end Table
end CalcShell
