/-
A file that has been written is read back at the same path.

A path that leads to a file of the directory, or to a place for a new one,
leads through nothing but the directory itself: every other place it could
come to is a dead end or a directory elsewhere (`follow_put`). So writing
changes nothing that such a path goes through. For a path that ends with a
slash its parent is looked up, which is a directory if it is anything
(`isDirectory_of_walk_parent`), and there nothing is written.
-/
import LS8.Folder

namespace LS8.Folder

variable {folder : Folder} {name : String} {bytes : ByteArray}

/-- The place is that of a file of the directory, or is free for one. -/
def Place.IsSlot (name : String) : Place → Prop
  | .file name' _ => name' = name
  | .absent .here name' => name' = name
  | _ => False

-- ============================================================== putting

theorem lookup_put (folder : Folder) (name : String) (bytes : ByteArray) :
    (folder.put name bytes).lookup .here name = .file name bytes := by
  simp [lookup, put]

/-- Nothing can follow what is no directory. -/
theorem follow_eq_of_no_directory {place place' : Place} {names : List String}
    (hplace : ∀ d, place ≠ .directory d) (h : folder.follow place names = .ok place') :
    names = [] ∧ place' = place := by
  cases names with
  | nil =>
      cases h
      exact ⟨rfl, rfl⟩
  | cons name names =>
      cases place with
      | directory d => exact absurd rfl (hplace d)
      | file name bytes => cases h
      | device d => cases h
      | absent parent name => cases h

/-- What has a name in a directory is a directory whatever files there are,
or it is none, and then it is a place for a file only in the directory
itself. -/
theorem lookup_cases (folder : Folder) (d : Directory) (first : String) :
    (∃ d', ∀ folder' : Folder, folder'.lookup d first = .directory d')
    ∨ (∀ d', folder.lookup d first ≠ .directory d')
      ∧ ∀ name, (folder.lookup d first).IsSlot name → d = .here ∧ first = name := by
  cases d with
  | here =>
      refine Or.inr ?_
      simp only [lookup]
      cases folder.files.lookup first with
      | none => exact ⟨fun d' h => (by cases h), fun name hslot => ⟨trivial, hslot⟩⟩
      | some bytes => exact ⟨fun d' h => (by cases h), fun name hslot => ⟨trivial, hslot⟩⟩
  | top =>
      simp only [lookup]
      by_cases hdev : first = "dev"
      · exact Or.inl ⟨.devices, fun folder' => if_pos hdev⟩
      · by_cases htop : topNames.contains first = true
        · exact Or.inl ⟨.elsewhere, fun folder' => (if_neg hdev).trans (if_pos htop)⟩
        · rw [if_neg hdev, if_neg htop]
          exact Or.inr ⟨fun d' h => (by cases h), fun name hslot => hslot.elim⟩
  | devices =>
      refine Or.inr ?_
      simp only [lookup]
      by_cases hnull : first = "null"
      · rw [if_pos hnull]
        exact ⟨fun d' h => (by cases h), fun name hslot => hslot.elim⟩
      · by_cases hfull : first = "full"
        · rw [if_neg hnull, if_pos hfull]
          exact ⟨fun d' h => (by cases h), fun name hslot => hslot.elim⟩
        · rw [if_neg hnull, if_neg hfull]
          exact ⟨fun d' h => (by cases h), fun name hslot => hslot.elim⟩
  | elsewhere => exact Or.inr ⟨fun d' h => (by cases h), fun name hslot => hslot.elim⟩

/-- A path that leads to the place of a file leads to the file when it has
been put there. -/
theorem follow_put {names : List String} :
    ∀ {d : Directory} {place : Place}, folder.follow (.directory d) names = .ok place →
      place.IsSlot name →
        (folder.put name bytes).follow (.directory d) names = .ok (.file name bytes) := by
  induction names with
  | nil =>
      intro d place h hslot
      cases h
      exact hslot.elim
  | cons first names ih =>
      intro d place h hslot
      unfold follow enter at h ⊢
      by_cases hstay : first = "" ∨ first = "."
      · simp only [if_pos hstay] at h ⊢
        exact ih h hslot
      · by_cases hup : first = ".."
        · simp only [if_neg hstay, if_pos hup] at h ⊢
          exact ih h hslot
        · by_cases hlong : longestName < first.utf8ByteSize
          · simp only [if_neg hstay, if_neg hup, if_pos hlong] at h
            cases h
          · simp only [if_neg hstay, if_neg hup, if_neg hlong] at h ⊢
            rcases lookup_cases folder d first with ⟨d', hlookup⟩ | ⟨hnone, hplace⟩
            · rw [hlookup] at h ⊢
              exact ih h hslot
            · obtain ⟨rfl, rfl⟩ := follow_eq_of_no_directory hnone h
              obtain ⟨rfl, rfl⟩ := hplace name hslot
              rw [lookup_put]
              rfl

-- ============================================================== slashes

/-- What a path comes to behind a dot is a directory. -/
theorem isDirectory_of_follow_dot {names : List String} :
    ∀ {place place' : Place}, folder.follow place (names ++ ["."]) = .ok place' →
      ∃ d, place' = .directory d := by
  induction names with
  | nil =>
      intro place place' h
      cases place with
      | directory d =>
          cases h
          exact ⟨d, rfl⟩
      | file name bytes => cases h
      | device d => cases h
      | absent parent name => cases h
  | cons first names ih =>
      intro place place' h
      rw [List.cons_append, follow] at h
      split at h
      · cases h
      · exact ih h

theorem getLast?_of_cons {c : Char} {front : List Char}
    (h : ∀ d ∈ (c :: front).getLast?, d = '/') : ∀ d ∈ front.getLast?, d = '/' := by
  intro d hd
  apply h
  rw [List.getLast?_cons, Option.mem_def.1 hd]
  rfl

/-- Of a path that ends with a slash and a dot the dot is the last name. -/
theorem exists_namesFrom_dot {front : List Char} :
    ∀ read : List Char, (∀ c ∈ front.getLast?, c = '/') → (front = [] → read = []) →
      ∃ names, namesFrom read (front ++ ['.']) = names ++ ["."] := by
  induction front with
  | nil =>
      intro read _ hread
      rw [hread rfl]
      exact ⟨[], rfl⟩
  | cons c front ih =>
      intro read hlast _
      have hrest := getLast?_of_cons hlast
      by_cases hc : c = '/'
      · subst hc
        obtain ⟨names, hnames⟩ := ih [] hrest fun _ => rfl
        refine ⟨String.ofList read.reverse :: names, ?_⟩
        rw [List.cons_append, namesFrom, hnames]
        rfl
      · have hfront : front ≠ [] := by
          rintro rfl
          exact hc (hlast c rfl)
        obtain ⟨names, hnames⟩ := ih (c :: read) hrest fun h => absurd h hfront
        refine ⟨names, ?_⟩
        rw [List.cons_append, namesFrom, hnames]
        exact hc

/-- The parent of a path is a directory, if it is anything. -/
theorem isDirectory_of_walk_parent {path : String} {place : Place}
    (h : folder.walk (parent path) = .ok place) : ∃ d, place = .directory d := by
  obtain ⟨front, hfront, hlast⟩ : ∃ front, (parent path).toList = front ++ ['.']
      ∧ ∀ c ∈ front.getLast?, c = '/' := by
    refine ⟨_, by rw [parent, String.toList_append, String.toList_ofList]; rfl, ?_⟩
    intro c hc
    rw [List.getLast?_reverse] at hc
    have hstop := List.head?_dropWhile_not (· ≠ '/') (path.toList.reverse.dropWhile (· = '/'))
    rw [Option.mem_def.1 hc] at hstop
    simpa using hstop
  unfold walk at h
  rw [hfront] at h
  split at h
  · rename_i rest hslash
    cases front with
    | nil => cases hslash
    | cons c front =>
        have hrest : front ++ ['.'] = rest := (List.cons.inj hslash).2
        obtain ⟨names, hnames⟩ :=
          exists_namesFrom_dot [] (getLast?_of_cons hlast) fun _ => rfl
        rw [← hrest, hnames] at h
        exact isDirectory_of_follow_dot h
  · obtain ⟨names, hnames⟩ := exists_namesFrom_dot [] hlast fun _ => rfl
    rw [hnames] at h
    exact isDirectory_of_follow_dot h

-- ============================================================== reading

theorem walk_put {path : String} {place : Place} (h : folder.walk path = .ok place)
    (hslot : place.IsSlot name) : (folder.put name bytes).walk path = .ok (.file name bytes) := by
  unfold walk at h ⊢
  split at h <;> exact follow_put h hslot

/-- Where writing puts a file, nothing but the file is written. -/
theorem write_of_slot {path : String} {place : Place}
    (htarget : folder.resolveTarget path = .ok place) (hslot : place.IsSlot name) :
    folder.write path bytes = .ok (folder.put name bytes) := by
  unfold write
  rw [htarget]
  match place, hslot with
  | .file _ _, rfl => rfl
  | .absent .here _, rfl => rfl

/-- A file that has been written at a path to its place is read back there. -/
theorem read_of_write {path : String} {folder' : Folder} {place : Place}
    (htarget : folder.resolveTarget path = .ok place) (hslot : place.IsSlot name)
    (hwrite : folder.write path bytes = .ok folder') : folder'.read path = .ok bytes := by
  rw [write_of_slot htarget hslot] at hwrite
  cases hwrite
  unfold resolveTarget at htarget
  cases hcheck : checkPath path with
  | error failure =>
      rw [hcheck] at htarget
      cases htarget
  | ok =>
      simp only [hcheck] at htarget
      by_cases hslash : path.toList.getLast? = some '/'
      · rw [if_pos hslash] at htarget
        obtain ⟨d, rfl⟩ := isDirectory_of_walk_parent htarget
        exact hslot.elim
      · rw [if_neg hslash] at htarget
        simp only [read, resolve, hcheck, walk_put htarget hslot]

end LS8.Folder
