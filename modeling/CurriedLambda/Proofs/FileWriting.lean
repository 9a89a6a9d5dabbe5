import CurriedLambda.Command.FileSystem

/-!
Writing a file and reading it again. The file lies where no directory is, and the way to
it leads through directories only; so putting it there leaves the way as it was, and what
is read under its path is what was written.
-/
namespace CurriedLambda.Command

theorem bind_eq_ok_iff {ε α β : Type} {attempt : Except ε α} {next : α → Except ε β} {result : β} :
    attempt >>= next = .ok result ↔ ∃ value, attempt = .ok value ∧ next value = .ok result := by
  cases attempt <;> simp [Bind.bind, Except.bind]

namespace FileSystem

variable {system : FileSystem} {location place next : Location} {entry : Entry} {name : String}

theorem entry?_put_self (hroot : location ≠ []) :
    entry? (system.put location entry) location = some entry := by
  cases location with
  | nil => exact absurd rfl hroot
  | cons => simp [ entry?, put]

theorem entry?_put_of_ne (h : place ≠ location) :
    entry? (system.put location entry) place = system.entry? place := by
  cases place with
  | nil => rfl
  | cons => simp [ entry?, put, h]

theorem enter_eq_ok_iff : system.enter place = .ok () ↔ system.entry? place = some .directory := by
  unfold enter
  split <;> simp_all

theorem lookup_eq_ok_iff :
    system.lookup place name = .ok next ↔
      system.entry? place = some .directory ∧ name.utf8ByteSize ≤ Path.maxNameSize ∧
        next = descend place name := by
  rw [lookup, bind_eq_ok_iff, ← enter_eq_ok_iff]
  constructor
  · rintro ⟨_, henter, h⟩
    split at h
    · cases h
    · next hname => exact ⟨henter, Nat.le_of_not_lt hname, (Except.ok.inj h).symm⟩
  · rintro ⟨henter, hname, rfl⟩
    exact ⟨(), henter, if_neg (Nat.not_lt.mpr hname)⟩

/-- Names lead where they led, if no directory is replaced. -/
theorem lookup_put (hfree : system.entry? location ≠ some .directory)
    (h : system.lookup place name = .ok next) :
    (system.put location entry).lookup place name = .ok next := by
  obtain ⟨hplace, hname, rfl⟩ := lookup_eq_ok_iff.mp h
  -- Only a directory is entered, so that `location` is never on the way.
  have hne : place ≠ location := by
    rintro rfl
    exact hfree hplace
  exact lookup_eq_ok_iff.mpr ⟨(entry?_put_of_ne hne).trans hplace, hname, rfl⟩

theorem walk_cons_eq_ok_iff {rest : List String} {goal : Location} :
    system.walk place (name :: rest) = .ok goal ↔
      ∃ next, system.lookup place name = .ok next ∧ system.walk next rest = .ok goal := by
  rw [walk]
  split <;> simp_all

theorem walk_put (hfree : system.entry? location ≠ some .directory) {names : List String}
    (h : system.walk place names = .ok next) :
    (system.put location entry).walk place names = .ok next := by
  induction names generalizing place with
  | nil => exact h
  | cons name rest ih =>
    obtain ⟨through, hlookup, hwalk⟩ := walk_cons_eq_ok_iff.mp h
    exact walk_cons_eq_ok_iff.mpr ⟨through, lookup_put hfree hlookup, ih hwalk⟩

theorem walk_concat {names : List String} (hwalk : system.walk place names = .ok next)
    {goal : Location} (hlookup : system.lookup next name = .ok goal) :
    system.walk place (names ++ [name]) = .ok goal := by
  induction names generalizing place with
  | nil =>
    cases hwalk
    exact walk_cons_eq_ok_iff.mpr ⟨goal, hlookup, rfl⟩
  | cons first rest ih =>
    obtain ⟨through, hfirst, hrest⟩ := walk_cons_eq_ok_iff.mp hwalk
    exact walk_cons_eq_ok_iff.mpr ⟨through, hfirst, ih hrest⟩

/-- Where a file can be written: where the path leads to, and where there is no directory. -/
theorem exists_of_target {path : String} (h : system.target path = .ok location) :
    ∃ parsed, Path.ofString path = .ok parsed ∧ parsed.directory = false ∧
      system.walk (system.origin parsed) parsed.names = .ok location ∧
      system.entry? location ≠ some .directory := by
  obtain ⟨parsed, hparsed, h⟩ := bind_eq_ok_iff.mp h
  split at h
  · cases h
  · next name hlast =>
    obtain ⟨parent, hwalk, h⟩ := bind_eq_ok_iff.mp h
    obtain ⟨_, -, h⟩ := bind_eq_ok_iff.mp h
    split at h
    · cases h
    · next hfile =>
      obtain ⟨goal, hlookup, h⟩ := bind_eq_ok_iff.mp h
      split at h
      · cases h
      · next hfree =>
        cases h
        refine ⟨parsed, hparsed, by simp_all, ?_, hfree⟩
        obtain ⟨front, hnames⟩ := List.getLast?_eq_some_iff.mp hlast
        rw [hnames, List.dropLast_concat] at hwalk
        rw [hnames]
        exact walk_concat hwalk hlookup

/-- What is read under a path is what was written under it. -/
theorem read_of_write {path : String} {content : ByteArray} {after : FileSystem}
    (h : system.write path content = .ok after) : after.read path = .ok content := by
  obtain ⟨location, htarget, h⟩ := bind_eq_ok_iff.mp h
  cases h
  obtain ⟨parsed, hparsed, hfile, hwalk, hfree⟩ := exists_of_target htarget
  have hroot : location ≠ [] := by
    rintro rfl
    exact hfree rfl
  refine bind_eq_ok_iff.mpr ⟨parsed, hparsed, ?_⟩
  refine bind_eq_ok_iff.mpr ⟨location, walk_put hfree hwalk, ?_⟩
  simp [entry?_put_self hroot, hfile]

end FileSystem

end CurriedLambda.Command
