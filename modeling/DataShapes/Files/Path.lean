/-! # Paths

A path is the list of its segments, the parts of its text between slashes. Empty segments and `.` lead
nowhere, except that a path may begin with `.`. -/

namespace DataShapes

structure Path where
  segments : List String
  deriving DecidableEq, Repr, Inhabited

namespace Path

def ofString (text : String) : Path := ⟨text.splitOn "/"⟩

def text (path : Path) : String := "/".intercalate path.segments

/-- Whether a segment leads nowhere. -/
def isIdle (segment : String) : Bool := segment == "" || segment == "."

/-- Some segments without the idle ones at their end. -/
def trimEnd : List String → List String
  | [] => []
  | segment :: rest =>
    match trimEnd rest with
    | [] => if isIdle segment then [] else [segment]
    | kept => segment :: kept

/-- The segments of a path without the idle ones at their end; the first segment stays. -/
def trim : List String → List String
  | [] => []
  | first :: rest => first :: trimEnd rest

theorem length_trimEnd_le : ∀ segments : List String, (trimEnd segments).length ≤ segments.length
  | [] => Nat.le_refl _
  | segment :: rest => by
    have := length_trimEnd_le rest
    unfold trimEnd
    split
    · split <;> simp
    · simp_all

theorem length_trim_le : ∀ segments : List String, (trim segments).length ≤ segments.length
  | [] => Nat.le_refl _
  | _ :: rest => by simp [trim, length_trimEnd_le rest]

/-- The path without its last segment; an empty path has none. -/
def parent? (path : Path) : Option Path :=
  match trim path.segments with
  | [] => none
  | [""] => none
  | trimmed => some ⟨trim trimmed.dropLast⟩

theorem length_parent_lt {path parent : Path} (h : path.parent? = some parent) :
    parent.segments.length < path.segments.length := by
  unfold parent? at h
  have hl := length_trim_le path.segments
  generalize trim path.segments = trimmed at h hl
  split at h
  · cases h
  · cases h
  · next hne _ =>
    cases h
    have := length_trim_le trimmed.dropLast
    have : 0 < trimmed.length := List.length_pos_iff.2 hne
    simp only [List.length_dropLast] at *
    omega

def isEmpty (path : Path) : Bool := path.segments.all (· == "") && path.segments.length ≤ 1

/-- Whether a path starts at the top of all directories. -/
def isAbsolute (path : Path) : Bool := path.segments.head? == some "" && !path.isEmpty

def holdsNul (path : Path) : Bool := path.segments.any (·.toList.contains '\x00')

/-- Whether a path takes more than 4095 bytes, the most a path may have. -/
def isTooLong (path : Path) : Bool := 4095 < path.text.utf8ByteSize

end Path

end DataShapes
