import NinjaFile.Entries
import NinjaFile.Outcome
import NinjaFile.Storage.Path

/-!
# Storage

Files and directories below a working directory. Each is kept under its
location, the list of names that lead to it; a location that leads out of the
working directory begins with names for parents, which are directories always.

A path is resolved name by name, and the first name that cannot be followed is
the obstacle: one that is missing, one that is a file, or one that is too long.

Obstacles of this kind are all that a path can meet: there are no links and no
permissions. Nor does a file that is open give a fault: what is written to it is
in it.
-/

namespace NinjaFile

inductive Node where
  | file (octets : List UInt8)
  | directory
  deriving DecidableEq, Repr

/-- The names that lead to a node, without detours. -/
abbrev Location := List String

/-- Files and directories by location, in order of creation. -/
structure Storage where
  nodes : List (Location × Node) := []
  deriving DecidableEq, Repr

namespace Storage

/-- Why an operation is refused; the path is the one that the operation was about. -/
inductive Refusal where
  | obstacle (obstacle : Obstacle) (path : Path)
  | embeddedNul
  deriving DecidableEq, Repr

def parentName : String := ".."

/-- The most octets that a name may have. -/
def nameLimit : Nat := 255

def pathLimit : Nat := 4096

/-- The node at a location. The directories around the working directory are always there. -/
def node? (s : Storage) (location : Location) : Option Node :=
  if location.all (· == parentName) then some .directory
  else Entries.find? (· == ·) location s.nodes

def put (s : Storage) (location : Location) (node : Node) : Storage :=
  ⟨Entries.put (· == ·) location node s.nodes⟩

/-! ## Resolution -/

def parentOf (location : Location) : Location :=
  if location.all (· == parentName) then parentName :: location else location.dropLast

/-- The location that names lead to from a location. All but the last must be directories; whether
there is a node at the end is left open. -/
def follow (s : Storage) (start : Location) : List String → Except Obstacle Location
  | [] => .ok start
  | name :: names =>
    match s.node? start with
    | none => .error .missing
    | some (.file _) => .error .notDirectory
    | some .directory =>
      if name = parentName then s.follow (parentOf start) names
      else if nameLimit < name.utf8ByteSize then .error .nameTooLong
      else s.follow (start ++ [name]) names

def resolve (s : Storage) (p : Path) : Except Refusal Location :=
  if p.hasNul then .error .embeddedNul
  else if pathLimit ≤ p.toString.utf8ByteSize then .error (.obstacle .nameTooLong p)
  else
    match s.follow [] p.parts with
    | .ok location => .ok location
    | .error o => .error (.obstacle o p)

/-! ## Files -/

def writable (s : Storage) (p : Path) : Except Refusal Location := do
  let location ← s.resolve p
  match s.node? location with
  | some .directory => .error (.obstacle .isDirectory p)
  | _ => return location

/-- The storage in which the file at a path has the given octets and nothing else has changed. -/
def write (s : Storage) (p : Path) (octets : List UInt8) : Except Refusal Storage := do
  let location ← s.writable p
  return s.put location (.file octets)

def read (s : Storage) (p : Path) : Except Refusal (List UInt8) := do
  let location ← s.resolve p
  match s.node? location with
  | none => .error (.obstacle .missing p)
  | some .directory => .error (.obstacle .isDirectory p)
  | some (.file octets) => return octets

/-- The octets of the file at a path, or `none` where there is no file. Only a name that is too long
is an error here. -/
def file? (s : Storage) (p : Path) : Except Refusal (Option (List UInt8)) :=
  match s.read p with
  | .ok octets => .ok (some octets)
  | .error (.obstacle .nameTooLong path) => .error (.obstacle .nameTooLong path)
  | .error _ => .ok none

def hasDirectory (s : Storage) (p : Path) : Bool :=
  match s.resolve p with
  | .ok location => s.node? location == some .directory
  | .error _ => false

/-! ## What writing changes -/

theorem node?_put_self (s : Storage) {location : Location} (node : Node)
    (inside : location.all (· == parentName) = false) :
    (s.put location node).node? location = some node := by
  simp only [node?, inside, Bool.false_eq_true, if_false, put]
  exact Entries.find?_put_self _ _ _ _ (beq_self_eq_true location)

theorem node?_put_of_ne (s : Storage) {location other : Location} (node : Node)
    (h : other ≠ location) : (s.put location node).node? other = s.node? other := by
  unfold node?
  split
  · rfl
  · exact Entries.find?_put_of_ne node s.nodes h

theorem put_eq_self (s : Storage) {location : Location} {octets : List UInt8}
    (h : s.node? location = some (.file octets)) : s.put location (.file octets) = s := by
  unfold node? at h
  split at h
  · cases h
  · rw [put, Entries.put_eq_self h]

/-- A path leads where it led before a file was put in a place that is no directory. -/
theorem follow_put (s : Storage) {location : Location} (octets : List UInt8)
    (h : s.node? location ≠ some .directory) {start last : Location} {names : List String}
    (hFollow : s.follow start names = .ok last) :
    (s.put location (.file octets)).follow start names = .ok last := by
  induction names generalizing start with
  | nil => exact hFollow
  | cons name names ih =>
    rw [follow] at hFollow ⊢
    have other : s.node? start = some .directory → start ≠ location := by
      rintro hStart rfl
      exact h hStart
    cases hStart : s.node? start with
    | none => rw [hStart] at hFollow; cases hFollow
    | some found =>
      cases found with
      | file content => rw [hStart] at hFollow; cases hFollow
      | directory =>
        rw [hStart] at hFollow
        rw [node?_put_of_ne s _ (other hStart), hStart]
        dsimp only at hFollow ⊢
        by_cases hParent : name = parentName
        · rw [if_pos hParent] at hFollow ⊢
          exact ih hFollow
        · rw [if_neg hParent] at hFollow ⊢
          by_cases hLong : nameLimit < name.utf8ByteSize
          · rw [if_pos hLong] at hFollow
            cases hFollow
          · rw [if_neg hLong] at hFollow ⊢
            exact ih hFollow

theorem resolve_put (s : Storage) {location found : Location} (octets : List UInt8)
    (h : s.node? location ≠ some .directory) {p : Path} (hResolve : s.resolve p = .ok found) :
    (s.put location (.file octets)).resolve p = .ok found := by
  unfold resolve at hResolve ⊢
  by_cases hNul : p.hasNul = true
  · rw [if_pos hNul] at hResolve
    cases hResolve
  · rw [if_neg hNul] at hResolve ⊢
    by_cases hLong : pathLimit ≤ p.toString.utf8ByteSize
    · rw [if_pos hLong] at hResolve
      cases hResolve
    · rw [if_neg hLong] at hResolve ⊢
      cases hFollow : s.follow [] p.parts with
      | error obstacle => rw [hFollow] at hResolve; cases hResolve
      | ok location =>
        rw [hFollow] at hResolve
        cases hResolve
        rw [follow_put s octets h hFollow]

theorem writable_eq_ok {s : Storage} {p : Path} {location : Location} :
    s.writable p = .ok location ↔
      s.resolve p = .ok location ∧ s.node? location ≠ some .directory := by
  unfold writable
  rw [Outcome.bind_eq_ok]
  constructor
  · rintro ⟨found, hResolve, h⟩
    split at h
    · cases h
    · rename_i hNode
      cases h
      exact ⟨hResolve, hNode⟩
  · rintro ⟨hResolve, hNode⟩
    refine ⟨location, hResolve, ?_⟩
    split
    · rename_i h
      exact absurd h hNode
    · rfl

theorem write_of_writable {s : Storage} {p : Path} {location : Location}
    (h : s.writable p = .ok location) (octets : List UInt8) :
    s.write p octets = .ok (s.put location (.file octets)) := by
  rw [write, h]
  rfl

theorem write_of_refused {s : Storage} {p : Path} {refusal : Refusal}
    (h : s.writable p = .error refusal) (octets : List UInt8) :
    s.write p octets = .error refusal := by
  rw [write, h]
  rfl

theorem writable_of_write {s : Storage} {p : Path} {octets : List UInt8} :
    (∀ refusal, s.write p octets = .error refusal → s.writable p = .error refusal) ∧
      ∀ after, s.write p octets = .ok after → ∃ location, s.writable p = .ok location := by
  rw [write]
  cases s.writable p with
  | error refusal =>
      constructor
      · intro other h
        cases h
        rfl
      · intro after h
        cases h
  | ok location =>
      constructor
      · intro refusal h
        cases h
      · intro after h
        exact ⟨location, rfl⟩

/-- A location that is no directory lies below the working directory or beside it. -/
theorem all_eq_false_of_node? {s : Storage} {location : Location}
    (h : s.node? location ≠ some .directory) : location.all (· == parentName) = false := by
  cases hAll : location.all (· == parentName) with
  | false => rfl
  | true => exact absurd (by simp [node?, hAll]) h

theorem read_of_write {s after : Storage} {p : Path} {octets : List UInt8}
    (h : s.write p octets = .ok after) : after.read p = .ok octets := by
  obtain ⟨location, hWritable, hPut⟩ := Outcome.bind_eq_ok.1 h
  obtain ⟨hResolve, hNode⟩ := writable_eq_ok.1 hWritable
  cases hPut
  unfold read
  rw [resolve_put s octets hNode hResolve]
  show (match (s.put location (.file octets)).node? location with
    | none => _
    | some .directory => _
    | some (.file octets) => _) = _
  rw [node?_put_self s (.file octets) (all_eq_false_of_node? hNode)]
  rfl

/-! ## Directories -/

/-- The storage with a new directory at a path, whose parent must be there. -/
def makeDirectory (s : Storage) (p : Path) : Except Refusal Storage := do
  let location ← s.resolve p
  match s.node? location with
  | some _ => .error (.obstacle .occupied p)
  | none => return s.put location .directory

/-- The storage in which there is a directory at a path, made with the parents that are missing.
Parents that were made before a refusal stay. -/
def makeDirectories (s : Storage) (p : Path) : Storage × Except Refusal Unit :=
  match s.makeDirectory p with
  | .ok s => (s, .ok ())
  | .error (.obstacle .missing path) =>
    if p.parts.isEmpty then (s, .error (.obstacle .missing path))
    else
      match s.makeDirectories p.parent with
      | (s, .error refusal) => (s, .error refusal)
      | (s, .ok ()) =>
        match s.makeDirectory p with
        | .ok s => (s, .ok ())
        | .error refusal =>
          if s.hasDirectory p then (s, .ok ()) else (s, .error refusal)
  | .error refusal => if s.hasDirectory p then (s, .ok ()) else (s, .error refusal)
termination_by p.parts.length
decreasing_by
  rename_i h
  have : p.parts ≠ [] := by simpa using h
  have := List.length_pos_iff.2 this
  simp only [Path.parent, List.length_dropLast]
  omega

/-! ## Listing -/

/-- A location as it is listed: a directory with a slash behind it. -/
def listed (entry : Location × Node) : String :=
  "/".intercalate entry.1 ++ (match entry.2 with
    | .directory => "/"
    | .file _ => "")

/-- All below the working directory, in order of code points. -/
def listing (s : Storage) : List String :=
  ((s.nodes.filter fun entry => entry.1.head? != some parentName).map listed).mergeSort
    fun a b => !decide (b < a)

end Storage

end NinjaFile
