import CalcShell.Proofs.Editing.Position
import CalcShell.Proofs.Files.Writing
import CalcShell.Proofs.Text.Lines

/-! The history in its file. Entries stand on lines of their own without any quoting, and empty lines are
passed over. So the file is as good as the entries as long as each of them is a line that is not empty,
and no operation makes any other entries of such lines. -/
namespace CalcShell

namespace Bytes

lemma lines_unlines {ls : List Bytes} (plain : ∀ line ∈ ls, Ascii.newline ∉ line) :
    lines (unlines ls) = ls := by
  have parts : IsSplit (unlines ls) ls [] := ⟨(List.append_nil _).symm, plain, nofun⟩
  rw [parts.lines_eq, if_pos rfl]

lemma newline_notMem_of_mem_lines {text line : Bytes} (mem : line ∈ lines text) :
    Ascii.newline ∉ line := by
  obtain ⟨complete, rest, parts⟩ := exists_isSplit text
  rw [parts.lines_eq] at mem
  split at mem
  · exact parts.complete line mem
  · rcases List.mem_append.1 mem with isComplete | isRest
    · exact parts.complete line isComplete
    · rw [List.mem_singleton.1 isRest]
      exact parts.rest

end Bytes

namespace History

/-! ### What the file can hold -/

/-- A line that is not empty. -/
def IsEntry (line : Bytes) : Prop := line ≠ [] ∧ Ascii.newline ∉ line

instance (line : Bytes) : Decidable (IsEntry line) := inferInstanceAs (Decidable (_ ∧ _))

/-- The file holds every entry, and there is a place for it. -/
structure IsStorable (h : History) : Prop where
  entries : ∀ line ∈ h.entries, IsEntry line
  path : h.path ≠ []

lemma trimTo_suffix (limit : Nat) (entries : List Bytes) : trimTo limit entries <:+ entries := by
  unfold trimTo
  split
  · exact List.suffix_refl _
  · exact List.drop_suffix _ _

lemma defaultPath_ne_nil (home : Bytes) : defaultPath home ≠ [] := by
  unfold defaultPath
  split
  · decide
  · split <;> simp [fileName, bytes]

lemma isStorable_new (env : Environment) (accountHome path : Bytes) (bound : Int) :
    (new env accountHome path bound).IsStorable where
  entries := nofun
  path := by
    unfold new
    dsimp only
    split
    · exact defaultPath_ne_nil _
    · rename_i given
      simpa using given

namespace IsStorable

variable {h : History}

/-- Dropping old entries of a history with more of them. -/
lemma trim (storable : h.IsStorable) {more : List Bytes} (added : ∀ line ∈ more, IsEntry line)
    (limit : Nat) : ∀ line ∈ trimTo limit (h.entries ++ more), IsEntry line := by
  intro line mem
  rcases List.mem_append.1 ((trimTo_suffix _ _).subset mem) with old | new
  · exact storable.entries line old
  · exact added line new

lemma load (storable : h.IsStorable) (files : FileTree) : (h.load files).IsStorable := by
  unfold History.load
  split
  · refine ⟨storable.trim ?_ h.limit, storable.path⟩
    intro line mem
    obtain ⟨isLine, some⟩ := List.mem_filter.1 mem
    exact ⟨by simpa using some, Bytes.newline_notMem_of_mem_lines isLine⟩
  · exact storable

lemma append (storable : h.IsStorable) {line : Bytes} (plain : Ascii.newline ∉ line) :
    (h.append line).IsStorable := by
  unfold History.append
  split
  · exact ⟨storable.entries, storable.path⟩
  · rename_i some
    refine ⟨storable.trim ?_ h.limit, storable.path⟩
    intro other mem
    rw [List.mem_singleton.1 mem]
    exact ⟨by simpa using some, plain⟩

lemma goTo (storable : h.IsStorable) (position : Nat) : (h.goTo position).2.IsStorable := by
  unfold History.goTo
  split
  · exact storable
  · exact ⟨storable.entries, storable.path⟩

lemma lead (storable : h.IsStorable) (motion : Motion) : (motion.lead h).2.IsStorable := by
  cases motion with
  | back => exact storable.goTo _
  | first => exact storable.goTo _
  | last => exact storable.goTo _
  | forward =>
    change h.forward.2.IsStorable
    unfold History.forward
    split <;> exact ⟨storable.entries, storable.path⟩

theorem perform (storable : h.IsStorable) {operation : Operation}
    (plain : ∀ line, operation = .append line → Ascii.newline ∉ line) :
    (h.perform operation).IsStorable := by
  cases operation with
  | load files => exact storable.load files
  | append line => exact storable.append (plain line rfl)
  | pop => exact ⟨fun line mem => storable.entries line (List.mem_of_mem_dropLast mem), storable.path⟩
  | beginEdit draft => exact ⟨storable.entries, storable.path⟩
  | browse motion => exact storable.lead motion
  | reset => exact ⟨storable.entries, storable.path⟩
  | setLimit bound =>
    exact ⟨fun line mem => storable.entries line ((trimTo_suffix _ _).subset mem), storable.path⟩

theorem after (storable : h.IsStorable) {operations : List Operation}
    (plain : ∀ line, .append line ∈ operations → Ascii.newline ∉ line) :
    (h.after operations).IsStorable := by
  induction operations using List.reverseRecOn with
  | nil => exact storable
  | append_singleton front operation ih =>
    have before := ih fun line mem => plain line (List.mem_append_left _ mem)
    rw [after_snoc]
    apply before.perform
    rintro line rfl
    exact plain line (by simp)

end IsStorable

/-! ### Through the file -/

/-- A new history that loads what was saved has the newest entries, as many as it may keep. -/
lemma load_of_save? {h : History} (storable : h.IsStorable) {files files' : FileTree}
    (saved : h.save? files = some files') (env : Environment) (accountHome : Bytes) (limit : Nat) :
    let copy := (new env accountHome h.path limit).load files'
    copy.path = h.path ∧ copy.entries = trimTo limit h.entries := by
  intro copy
  have path : (new env accountHome h.path limit).path = h.path := by
    rw [new, if_neg (by simpa using storable.path)]
  have read : files'.read? h.path = some (Bytes.unlines h.entries) := (FileTree.read?_of_write? saved).1
  have there : (files'.node? h.path).isSome := by
    unfold FileTree.read? at read
    split at read
    · rename_i found
      rw [found]
      rfl
    · cases read
  have lines : (Bytes.unlines h.entries).lines = h.entries :=
    Bytes.lines_unlines fun line mem => (storable.entries line mem).2
  have all : h.entries.filter (!·.isEmpty) = h.entries :=
    List.filter_eq_self.2 fun line mem => by simpa using (storable.entries line mem).1
  have loaded : copy = (new env accountHome h.path limit).addLines (Bytes.unlines h.entries) := by
    change History.load _ _ = _
    rw [load, path, if_pos there, read, Option.getD_some]
  rw [loaded, addLines, lines, all]
  exact ⟨path, rfl⟩

/-- Any history that operations make of a new one is kept in its file as it is, if the file can be written:
once it is saved, a new history at the same path with any limit loads as many of the newest entries as the limit
allows, in their order, and unless entries are missing it saves the very same files. Only lines with a newline in
them must not be recorded. -/
theorem load_saved (env : Environment) (accountHome path : Bytes) (bound : Int)
    {operations : List Operation} (plain : ∀ line, .append line ∈ operations → Ascii.newline ∉ line)
    {files : FileTree}
    (writable : files.IsWritable ((new env accountHome path bound).after operations).path)
    (env' : Environment) (accountHome' : Bytes) (limit : Nat) :
    let h := (new env accountHome path bound).after operations
    ∃ files', h.save? files = some files' ∧
      let copy := (new env' accountHome' h.path limit).load files'
      copy.entries <:+ h.entries ∧
        copy.entries.length = (if limit = 0 then h.entries.length else min limit h.entries.length) ∧
        (limit = 0 ∨ h.entries.length ≤ limit →
          copy.entries = h.entries ∧ copy.save? files' = some files') := by
  intro h
  obtain ⟨files', saved⟩ : ∃ files', h.save? files = some files' := writable.exists_write? _
  refine ⟨files', saved, ?_⟩
  intro copy
  have storable : h.IsStorable := (isStorable_new env accountHome path bound).after plain
  obtain ⟨copyPath, copyEntries⟩ : copy.path = h.path ∧ copy.entries = trimTo limit h.entries :=
    load_of_save? storable saved env' accountHome' limit
  refine ⟨?_, ?_, fun enough => ?_⟩
  · rw [copyEntries]
    exact trimTo_suffix limit h.entries
  · rw [copyEntries]
    exact length_trimTo limit h.entries
  · have whole : copy.entries = h.entries := by
      rw [copyEntries]
      apply (trimTo_suffix limit h.entries).eq_of_length
      rw [length_trimTo]
      split <;> omega
    refine ⟨whole, ?_⟩
    rw [save?, copyPath, whole]
    exact (FileTree.read?_of_write? saved).2

/-- Two of three lines are kept in the file in the user's home directory, one of them with a carriage return and
a NUL, and a copy with room for one has the newer one. -/
theorem load_saved_newest_line :
    let operations : List Operation :=
      [.append (bytes " a"), .append (bytes "b" ++ [0x0D, 0x00]), .append [], .append (bytes "c"),
        .setLimit 2]
    let env : Environment := .ofList [(bytes "HOME", bytes "/home/user")]
    let files : FileTree :=
      { nodes := [([bytes "home"], .directory), ([bytes "home", bytes "user"], .directory),
          ([bytes "work"], .directory)]
        working := [bytes "work"] }
    let h := (new env [] [] 1000).after operations
    h.path = bytes "/home/user/.replview_history" ∧
      ∃ files', h.save? files = some files' ∧
        files'.read? h.path = some (bytes "b" ++ [0x0D, 0x00, 0x0A] ++ bytes "c\n") ∧
        ((new env [] h.path 1).load files').entries = [bytes "c"] ∧
        ((new env [] h.path 2).load files').save? files' = some files' := by
  intro operations env files h
  have path : h.path = bytes "/home/user/.replview_history" := by decide +kernel
  have entries : h.entries = [bytes "b" ++ [0x0D, 0x00], bytes "c"] := by decide +kernel
  have plain : ∀ line, .append line ∈ operations → Ascii.newline ∉ line := by
    simp [operations]
    decide
  have writable : files.IsWritable h.path :=
    ⟨[bytes "home", bytes "user", bytes ".replview_history"], by decide +kernel⟩
  have copies := load_saved env [] [] 1000 plain writable env []
  obtain ⟨files', saved, newest, one, -⟩ := copies 1
  obtain ⟨files'', saved', -, -, again⟩ := copies 2
  obtain rfl : files' = files'' := Option.some.inj (saved.symm.trans saved')
  refine ⟨path, files', saved, ?_, ?_, (again (.inr ?_)).2⟩
  · have read : files'.read? h.path = some (Bytes.unlines h.entries) := (FileTree.read?_of_write? saved).1
    rw [entries] at read
    exact read
  · have isLast : [bytes "c"] <:+ h.entries := by
      rw [entries]
      exact List.suffix_append [_] [_]
    have same := List.suffix_of_suffix_length_le newest isLast (by rw [one, entries]; decide)
    apply same.eq_of_length
    rw [one, entries]
    rfl
  · change h.entries.length ≤ 2
    rw [entries]
    decide

end History
end CalcShell
