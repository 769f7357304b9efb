/-
  WHERE THE BACKUPS ARE.

  A file provider keeps its backup in a directory that it is given, or in the directory for
  temporary files, under a name that is made of the application's name:

      ⟨backupPath⟩/unleash-backup-⟨safeName appName⟩.json

  `safeName` leaves nothing in the name that means something in a path, so a provider writes into
  its directory and nowhere else, whatever the application is called.  But it maps many names to
  one: the providers of such applications share a file, and one of them loads what another one has
  saved (`backups_isolated`).

  The operating system finds a directory by its path, and several paths may lead to one directory
  (`dirOf`); within a directory a file is found by its name.
-/
import UnleashSdk.BackupFile
import UnleashSdk.Lib.Cells

set_option linter.unusedVariables false

namespace Unleash

/-! ## Paths -/

namespace Path

/-- The last component of a path, empty after a separator. -/
def filename (p : Bytes) : Bytes := (p.reverse.takeWhile (· != 0x2F)).reverse

/-- What is before it, the separator included. -/
def directory (p : Bytes) : Bytes := (p.reverse.dropWhile (· != 0x2F)).reverse

/-- The directory without its last separators, unless it is the root. -/
def parentPath (p : Bytes) : Bytes :=
  let stripped := ((directory p).reverse.dropWhile (· == 0x2F)).reverse
  if stripped.isEmpty then directory p else stripped

/-- `p / q`: an absolute path replaces the other one, and a separator is added after a name. -/
def append (p q : Bytes) : Bytes :=
  if q.head? = some 0x2F then q
  else if (filename p).isEmpty then p ++ q
  else p ++ [0x2F] ++ q

/-- A path that is empty or ends with a separator. -/
def asDirectory (p : Bytes) : Bytes := if (filename p).isEmpty then p else p ++ [0x2F]

theorem append_of_name {p q : Bytes} (h : 0x2F ∉ q) : append p q = asDirectory p ++ q := by
  have hhead : q.head? ≠ some 0x2F := by
    intro hq
    exact h (List.mem_of_head? hq)
  rw [append, if_neg hhead, asDirectory]
  split <;> rfl

/-- Nothing of such a path is a name. -/
theorem filename_asDirectory (p : Bytes) : filename (asDirectory p) = [] := by
  unfold asDirectory
  split
  · rename_i h
    exact List.isEmpty_iff.mp h
  · simp [filename]

theorem split_of_name {d q : Bytes} (hd : filename d = []) (hq : 0x2F ∉ q) :
    filename (d ++ q) = q ∧ directory (d ++ q) = d := by
  have hname : ∀ b ∈ q.reverse, (b != 0x2F) = true := by
    intro b hb
    rw [bne_iff_ne]
    rintro rfl
    exact hq (List.mem_reverse.mp hb)
  have htake : d.reverse.takeWhile (· != 0x2F) = [] := by
    simpa [filename] using hd
  have hdrop : d.reverse.dropWhile (· != 0x2F) = d.reverse := by
    have hsplit := List.takeWhile_append_dropWhile (p := (· != 0x2F)) (l := d.reverse)
    rwa [htake, List.nil_append] at hsplit
  unfold filename directory
  rw [List.reverse_append, List.takeWhile_append_of_pos hname, List.dropWhile_append_of_pos hname,
    htake, hdrop]
  simp

end Path

namespace FileStorageProvider

/-! ## The path of a backup -/

/-- `std::isalnum`, of a byte in the "C" locale. -/
def isAlnum (c : UInt8) : Bool :=
  (0x30 ≤ c && c ≤ 0x39) || (0x41 ≤ c && c ≤ 0x5A) || (0x61 ≤ c && c ≤ 0x7A)

/-- Whatever is not a letter, a digit, a hyphen or an underscore becomes an underscore. -/
def safeByte (c : UInt8) : UInt8 := if !isAlnum c && c != 0x2D && c != 0x5F then 0x5F else c

def safeName (s : Bytes) : Bytes := s.map safeByte

/-- The directory for temporary files, which the operating system may not know. -/
def defaultBackupPath (tempDirectory : Option Bytes) : Bytes := tempDirectory.getD (bytes ".")

def fileName (appName : Bytes) : Bytes :=
  bytes "unleash-backup-" ++ safeName appName ++ bytes ".json"

/-- The constructor: the path of the backup file. -/
def filePath (appName backupPath : Bytes) : Bytes := Path.append backupPath (fileName appName)

/-- The constructor that is given no directory. -/
def defaultFilePath (appName : Bytes) (tempDirectory : Option Bytes) : Bytes :=
  filePath appName (defaultBackupPath tempDirectory)

/-! ## Safe names -/

theorem safeByte_cases (c : UInt8) : safeByte c = c ∨ safeByte c = 0x5F := by
  unfold safeByte
  split
  · exact Or.inr rfl
  · exact Or.inl rfl

/-- No separator is left. -/
theorem safeByte_ne_slash (c : UInt8) : safeByte c ≠ 0x2F := by
  unfold safeByte
  split
  · decide
  · rename_i hsafe
    rintro rfl
    exact hsafe (by decide)

theorem slash_not_mem_fileName (appName : Bytes) : 0x2F ∉ fileName appName := by
  intro hmem
  rw [fileName, List.mem_append, List.mem_append] at hmem
  rcases hmem with (hmem | hmem) | hmem
  · exact absurd hmem (by decide)
  · obtain ⟨c, -, hc⟩ := List.mem_map.mp hmem
    exact safeByte_ne_slash c hc
  · exact absurd hmem (by decide)

/-- Two bytes that are told apart in no file name. -/
def Alike (x y : UInt8) : Prop := x = y ∨ (safeByte x = 0x5F ∧ safeByte y = 0x5F)

theorem safeByte_eq_iff (x y : UInt8) : safeByte x = safeByte y ↔ Alike x y := by
  constructor
  · intro h
    rcases safeByte_cases x with hx | hx
    · rcases safeByte_cases y with hy | hy
      · exact Or.inl (hx.symm.trans (h.trans hy))
      · exact Or.inr ⟨h.trans hy, hy⟩
    · exact Or.inr ⟨hx, h.symm.trans hx⟩
  · rintro (rfl | ⟨hx, hy⟩)
    · rfl
    · exact hx.trans hy.symm

/-- Names share a file name exactly if they are alike at every position. -/
theorem safeName_eq_iff (s t : Bytes) : safeName s = safeName t ↔ List.Forall₂ Alike s t := by
  induction s generalizing t with
  | nil =>
    cases t with
    | nil => exact iff_of_true rfl .nil
    | cons y t => exact iff_of_false (by simp [safeName]) (by simp)
  | cons x s ih =>
    cases t with
    | nil => exact iff_of_false (by simp [safeName]) (by simp)
    | cons y t =>
      rw [List.forall₂_cons, ← safeByte_eq_iff, ← ih]
      simp [safeName]

theorem fileName_eq_iff (s t : Bytes) : fileName s = fileName t ↔ safeName s = safeName t := by
  unfold fileName
  rw [List.append_left_inj, List.append_right_inj]

/-! ## Many providers on one disk -/

/-- What a provider was constructed with. -/
structure Provider where
  appName : Bytes
  backupPath : Bytes

def Provider.filePath (p : Provider) : Bytes :=
  FileStorageProvider.filePath p.appName p.backupPath

/-- A `save`, as far as it comes. -/
structure Save where
  provider : Provider
  toggles : ToggleSet
  stop : Stop

variable {J : JsonLib} {δ : Type} (dirOf : Bytes → δ)

/-- The file of a provider: its directory, and its name there. -/
def Provider.location (p : Provider) : δ × Bytes :=
  (dirOf (Path.directory p.filePath), Path.filename p.filePath)

/-- Directories are created only on the way to a path that has some. -/
def Save.possible (a : Save) : Bool :=
  match a.stop with
  | .directory => !(Path.parentPath a.provider.filePath).isEmpty
  | _ => true

/-- The files of a disk, and one save. -/
def diskStep [DecidableEq δ] (J : JsonLib) :
    (δ × Bytes → Option Bytes) → Save → Option (δ × Bytes → Option Bytes) :=
  Cells.step (fun a => a.provider.location dirOf)
    (fun a file => afterSave J file a.toggles a.stop) Save.possible

/-- `get` of a provider. -/
def load (J : JsonLib) (disk : δ × Bytes → Option Bytes) (p : Provider) : Option ToggleSet :=
  get J (disk (p.location dirOf))

variable {dirOf}

/-- **No way out of the directory.**  The file is in the directory that the provider was given,
    whatever the application is called. -/
theorem location_eq (p : Provider) :
    p.location dirOf = (dirOf (Path.asDirectory p.backupPath), fileName p.appName) := by
  have hname := slash_not_mem_fileName p.appName
  obtain ⟨hfile, hdir⟩ :=
    Path.split_of_name (Path.filename_asDirectory p.backupPath) hname
  unfold Provider.location Provider.filePath FileStorageProvider.filePath
  rw [Path.append_of_name hname, hfile, hdir]

/-- Two providers of one file. -/
def Share (dirOf : Bytes → δ) (p q : Provider) : Prop :=
  dirOf (Path.asDirectory p.backupPath) = dirOf (Path.asDirectory q.backupPath) ∧
    safeName p.appName = safeName q.appName

instance [DecidableEq δ] (dirOf : Bytes → δ) (p q : Provider) : Decidable (Share dirOf p q) :=
  inferInstanceAs (Decidable (_ ∧ _))

theorem location_eq_iff (p q : Provider) :
    p.location dirOf = q.location dirOf ↔ Share dirOf p q := by
  rw [location_eq, location_eq, Prod.mk.injEq, fileName_eq_iff]
  rfl

variable [DecidableEq δ]

/-- The saves of the providers that share a file with this one. -/
def sharedSaves (dirOf : Bytes → δ) (p : Provider) (as : List Save) : List Save :=
  as.filter fun a => decide (Share dirOf a.provider p)

theorem sharedSaves_eq (p : Provider) (as : List Save) :
    Cells.at_ (fun a : Save => a.provider.location dirOf) (p.location dirOf) as =
      sharedSaves dirOf p as := by
  refine List.filter_congr fun a _ => ?_
  rw [decide_eq_decide]
  exact location_eq_iff a.provider p

/-- `confined`: a file in which something has changed is the backup of a provider that has saved,
    in the directory of that provider and under its file name; `content`: what is in a backup is
    what the providers of this file have left in it, and nobody else; `loads`: a provider loads
    what the last of these has saved, if that was saved to its end; `shared`: in one directory
    those applications share a file whose names are alike. -/
structure Isolated (J : JsonLib) (dirOf : Bytes → δ) (disk₀ disk : δ × Bytes → Option Bytes)
    (as : List Save) : Prop where
  confined : ∀ k, disk k ≠ disk₀ k → ∃ a ∈ as,
    k = (dirOf (Path.asDirectory a.provider.backupPath), fileName a.provider.appName)
  content : ∀ p : Provider, disk (p.location dirOf) =
    (sharedSaves dirOf p as).foldl (fun file a => afterSave J file a.toggles a.stop)
      (disk₀ (p.location dirOf))
  loads : ∀ p bs a, sharedSaves dirOf p as = bs ++ [a] → a.stop = .finished →
    a.toggles.utf8 = true → load dirOf J disk p = some a.toggles.roundTrip
  shared : ∀ p q : Provider, Share dirOf p q ↔
    dirOf (Path.asDirectory p.backupPath) = dirOf (Path.asDirectory q.backupPath) ∧
      List.Forall₂ Alike p.appName q.appName

/-- **Backups are isolated.**  However many applications keep their backups on one disk, in the
    directories and under the names that they like, and however far their saves come: none leaves
    its directory, and none touches the backup of another one, but for those whose names the
    file name does not tell apart. -/
theorem backups_isolated (J : JsonLib) (dirOf : Bytes → δ) (disk₀ disk : δ × Bytes → Option Bytes)
    (as : List Save) (hrun : Machine.run (diskStep dirOf J) disk₀ as = some disk) :
    Isolated J dirOf disk₀ disk as := by
  have hcontent : ∀ p : Provider, disk (p.location dirOf) =
      (sharedSaves dirOf p as).foldl (fun file a => afterSave J file a.toggles a.stop)
        (disk₀ (p.location dirOf)) := by
    intro p
    rw [← sharedSaves_eq]
    exact Cells.run_at hrun (p.location dirOf)
  refine ⟨fun k hk => ?_, hcontent, fun p bs a hlast hstop hutf8 => ?_, fun p q => ?_⟩
  · obtain ⟨a, ha, hplace⟩ := Cells.written_of_ne hrun hk
    exact ⟨a, ha, by rw [← hplace, location_eq]⟩
  · obtain ⟨text, htext, hget⟩ := get_save (J := J)
      (bs.foldl (fun file a => afterSave J file a.toggles a.stop) (disk₀ (p.location dirOf))) hutf8
    rw [load, hcontent p, hlast, List.foldl_append, List.foldl_cons, List.foldl_nil, afterSave,
      hstop, saveUntil, htext]
    exact hget
  · rw [Share, safeName_eq_iff]

/-! ## Two names for one file -/

/-- Two applications in the directory for temporary files. -/
def spaced : Provider := ⟨bytes "my app", defaultBackupPath (some (bytes "/tmp"))⟩

def slashed : Provider := ⟨bytes "my/app", defaultBackupPath (some (bytes "/tmp"))⟩

example : slashed.filePath = defaultFilePath (bytes "my app") (some (bytes "/tmp")) := by decide

/-- The one loads what the other one has saved. -/
theorem backups_isolated_alike :
    ∃ disk, Machine.run (diskStep id JsonText.compact) (fun _ => none)
        [⟨slashed, oneToggleSet, .finished⟩] = some disk ∧
      Isolated JsonText.compact id (fun _ => none) disk [⟨slashed, oneToggleSet, .finished⟩] ∧
      load id JsonText.compact disk spaced = some oneToggleSet.roundTrip := by
  have hisolated := backups_isolated JsonText.compact id (fun _ => none) _
    [⟨slashed, oneToggleSet, .finished⟩] rfl
  exact ⟨_, rfl, hisolated, hisolated.loads spaced [] ⟨slashed, oneToggleSet, .finished⟩ rfl rfl
    (by decide)⟩

end FileStorageProvider

end Unleash
