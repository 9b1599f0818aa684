import HeaderBinding.Files.OsError
import HeaderBinding.Files.Path

/-!
# The files that an import sees and leaves behind

A store holds directories, files and symbolic links under their places, a place
being the names from the root down to it. Paths are walked step by step, through
links, up to a limit on the links followed.
-/

namespace HeaderBinding
namespace Files

abbrev Place :=
  List String

inductive Entry where
  | directory
  | file (text : String)
  | link (target : String)
  deriving DecidableEq

/-- The root itself is always a directory and is not among the entries. -/
structure Store where
  entries : List (Place × Entry)
  current : Place

namespace Store

def lookup (s : Store) (place : Place) : Option Entry :=
  match place with
  | [] => some .directory
  | _ => s.entries.lookup place

/-- Puts an entry at a place, whatever was there before. -/
def insert (s : Store) (place : Place) (entry : Entry) : Store :=
  { s with entries := (place, entry) :: s.entries.filter (·.1 ≠ place) }

theorem lookup_filter_ne (entries : List (Place × Entry)) {p q : Place} (h : q ≠ p) :
    (entries.filter (·.1 ≠ p)).lookup q = entries.lookup q := by
  induction entries with
  | nil =>
      rfl
  | cons e entries ih =>
      obtain ⟨r, entry⟩ := e
      by_cases hr : r = p
      · subst hr
        have hq : (q == r) = false := by simpa using h
        simpa [List.lookup_cons, hq] using ih
      · by_cases hq : q = r
        · subst hq
          simp [hr]
        · have hq' : (q == r) = false := by simpa using hq
          simpa [hr, List.lookup_cons, hq'] using ih

@[simp]
theorem lookup_nil (s : Store) : s.lookup [] = some .directory :=
  rfl

@[simp]
theorem current_insert (s : Store) (place : Place) (entry : Entry) :
    (s.insert place entry).current = s.current :=
  rfl

@[simp]
theorem lookup_insert_self (s : Store) (place : Place) (entry : Entry) (h : place ≠ []) :
    (s.insert place entry).lookup place = some entry := by
  cases place with
  | nil =>
      exact absurd rfl h
  | cons name names =>
      simp [lookup, insert]

@[simp]
theorem lookup_insert_of_ne (s : Store) {p q : Place} (entry : Entry) (h : q ≠ p) :
    (s.insert p entry).lookup q = s.lookup q := by
  cases q with
  | nil =>
      rfl
  | cons name names =>
      have hq : ((name :: names) == p) = false := by simpa using h
      simp only [lookup, insert, List.lookup_cons, hq]
      exact lookup_filter_ne s.entries h

def isDirectory (s : Store) (place : Place) : Bool :=
  s.lookup place = some .directory

@[simp]
theorem isDirectory_iff {s : Store} {place : Place} :
    s.isDirectory place = true ↔ s.lookup place = some .directory :=
  decide_eq_true_iff

/-- Where a path starts from. -/
def origin (s : Store) (path : String) : Place :=
  if isRooted path then [] else s.current

/-!
# Walking

A walk that lacks only its last name has still found the place for it.
-/

inductive Found where
  | present (place : Place)
  | missing (place : Place)
  deriving DecidableEq

def linkLimit : Nat :=
  40

/-- Walks up to the first link. The walk goes on from there as told. -/
def advance (s : Store) (follow : Place → List String → Except OsError Found) (place : Place)
    (path : List String) : Except OsError Found :=
  match path with
  | [] => .ok (.present place)
  | step :: rest =>
      if ¬s.isDirectory place then .error .notADirectory
      else if step = "." then s.advance follow place rest
      else if step = ".." then s.advance follow place.dropLast rest
      else
        let next := place ++ [step]
        match s.lookup next with
        | none => if rest = [] then .ok (.missing next) else .error .notFound
        | some .directory => s.advance follow next rest
        | some (.file _) => s.advance follow next rest
        | some (.link target) =>
            follow (if isRooted target then [] else place) (steps target ++ rest)

def walk (s : Store) : Nat → Place → List String → Except OsError Found
  | 0 => s.advance fun _ _ => .error .tooManyLinks
  | links + 1 => s.advance (s.walk links)

/-- Finds a path, and follows it if it is a link. -/
def find (s : Store) (path : String) : Except OsError Found :=
  if path = "" then .error .notFound
  else s.walk linkLimit (s.origin path) (steps path)

/-- The place of the file or directory that a path leads to. -/
def locate (s : Store) (path : String) : Except OsError Place :=
  match s.find path with
  | .ok (.present place) => .ok place
  | .ok (.missing _) => .error .notFound
  | .error e => .error e

/-- The text of the file that a path leads to, if there is one. -/
def read? (s : Store) (path : String) : Option String :=
  match s.locate path with
  | .ok place =>
      match s.lookup place with
      | some (.file text) => some text
      | _ => none
  | .error _ => none

/-- The names of a path from the root, without looking at the store. -/
def absoluteNames (s : Store) (path : String) : List String :=
  s.origin path ++ names path

/-- A path from the root. -/
def absolutePath (s : Store) (path : String) : String :=
  if isRooted path then path else join (pathOf true s.current) path

/-- What a path is compared by: the place that it leads to, or, if it leads nowhere,
its names. The empty path is like no other. -/
def resolve (s : Store) (path : String) : Option (List String) :=
  if path = "" then none
  else
    match s.locate path with
    | .ok place => some place
    | .error _ => some (s.absoluteNames path)

end Store
end Files
end HeaderBinding
