import Lumencast.Foundation.Success
import Lumencast.Foundation.Text
import Lumencast.Protocol.Errors

/-!
# Leaf paths

A leaf path is a dot-separated list of segments: identifiers, array indices and
`{scope}` placeholders, where the first segment may carry a reserved namespace.
`LeafPath.parse` is the validating constructor; `LeafPath.mk` corresponds to the
unvalidated one. The character tests are made on UTF-8 bytes, as in the source.
-/

namespace Lumencast.Protocol

open Foundation

/-- Reserved top-level namespace tags. -/
inductive Namespace where
  | inputs
  | system
  | test
  | schema
  | user
  deriving DecidableEq, Repr

/-- The namespace tag inferred from a path string. -/
def Namespace.of (path : String) : Namespace :=
  match stripPrefix ['_', '_'] path.toList with
  | some rest =>
      match (rest.splitOn '.').head?.map String.ofList with
      | some "inputs" => .inputs
      | some "system" => .system
      | some "test" => .test
      | some "schema" => .schema
      | _ => .user
  | none => .user

/-- The name behind the underscores of a reserved namespace. -/
def Namespace.tag : Namespace → Option String
  | inputs => some "inputs"
  | system => some "system"
  | test => some "test"
  | schema => some "schema"
  | user => none

/-- What lies behind two underscores is the rest of the first segment. -/
theorem segments_of_reserved {path : String} {rest : List Char}
    (reserved : stripPrefix ['_', '_'] path.toList = some rest) :
    segments path = (rest.splitOn '.').modifyHead (['_', '_'] ++ ·) := by
  rw [segments, stripPrefix_eq_some.mp reserved]
  obtain ⟨head, behind, split⟩ := List.exists_cons_of_ne_nil (List.splitOn_ne_nil '.' rest)
  simp [List.splitOn_cons_eq_if_modifyHead, split]

/-- A path whose first segment is reserved carries the tag behind the underscores. -/
theorem reserved_head_iff {path : String} {tag : List Char} :
    (∃ rest, stripPrefix ['_', '_'] path.toList = some rest ∧
        (rest.splitOn '.').head? = some tag) ↔
      (segments path).head? = some ('_' :: '_' :: tag) := by
  constructor
  · rintro ⟨rest, reserved, head⟩
    rw [segments_of_reserved reserved, List.head?_modifyHead, head]
    rfl
  · intro head
    obtain ⟨behind, split⟩ := List.head?_eq_some_iff.mp head
    have text := joinSegments_segments path
    obtain ⟨rest, reserved⟩ : ∃ rest, path.toList = ['_', '_'] ++ rest := by
      rw [← text, split]
      cases behind with
      | nil => exact ⟨tag, joinSegments_singleton _⟩
      | cons next behind => exact ⟨_, joinSegments_cons_cons _ next behind⟩
    have stripped := stripPrefix_eq_some.mpr reserved
    refine ⟨rest, stripped, ?_⟩
    rw [segments_of_reserved stripped, List.head?_modifyHead] at head
    obtain ⟨found, here, eq⟩ := Option.map_eq_some_iff.mp head
    have same : ['_', '_'] ++ found = ['_', '_'] ++ tag := eq
    rw [here, List.append_cancel_left same]

/-- A reserved namespace is recognised by the first segment of the path. -/
theorem Namespace.of_eq_iff {ns : Namespace} {tag : String} (tagged : ns.tag = some tag)
    {path : String} :
    Namespace.of path = ns ↔ (segments path).head? = some ('_' :: '_' :: tag.toList) := by
  rw [← reserved_head_iff, Namespace.of]
  cases stripped : stripPrefix ['_', '_'] path.toList with
  | none =>
      refine iff_of_false ?_ (by simp)
      rintro rfl
      cases tagged
  | some rest =>
      obtain ⟨head, behind, split⟩ := List.exists_cons_of_ne_nil (List.splitOn_ne_nil '.' rest)
      have named : head = tag.toList ↔ String.ofList head = tag := by
        rw [← String.toList_inj, String.toList_ofList]
      simp only [Option.some.injEq, exists_eq_left', split, List.head?_cons, Option.map_some, named]
      cases ns <;> cases tagged <;> split <;> simp_all

structure LeafPath where
  str : String
  deriving DecidableEq, Repr

def isAsciiDigit (b : UInt8) : Bool := 48 ≤ b && b ≤ 57

def isAsciiAlphabetic (b : UInt8) : Bool := (65 ≤ b && b ≤ 90) || (97 ≤ b && b ≤ 122)

def isIdentByte (b : UInt8) : Bool := isAsciiAlphabetic b || isAsciiDigit b || b == 95

def isScopePlaceholder (seg : List Char) : Bool :=
  seg.head? == some '\x7b' && seg.getLast? == some '\x7d' && 2 ≤ (bytes seg).length

def isIndex (seg : List Char) : Bool := !seg.isEmpty && (bytes seg).all isAsciiDigit

def isIdentifier (seg : List Char) : Bool :=
  match bytes seg with
  | [] => false
  | first :: rest => (isAsciiAlphabetic first || first == 95) && rest.all isIdentByte

def isSegmentToken (seg : List Char) : Bool := isIndex seg || isIdentifier seg

/-- One pass of the loop in `validate`, at the segment with index `i`. The two
slices start and end next to ASCII characters: `segment[1..len-1]` lies between
the braces and `segment[2..]` behind the leading `__`. -/
def validateSegment (i : Nat) (segment : List Char) : Except LumencastError Unit :=
  if segment.isEmpty then
    .error (.invalidPath "empty segment (consecutive dots)")
  else if isScopePlaceholder segment then
    let inner := segment.tail.dropLast
    if inner.isEmpty || !(bytes inner).all isIdentByte then
      .error (.invalidPath "scope placeholder must wrap a non-empty identifier")
    else .ok ()
  else if i == 0 && ['_', '_'].isPrefixOf segment then
    let head := segment.drop 2
    if head.isEmpty || !isIdentifier head then
      .error (.invalidPath "reserved namespace head is invalid")
    else .ok ()
  else if !isSegmentToken segment then
    .error (.invalidPath ("invalid segment: " ++ debugStr (String.ofList segment)))
  else .ok ()

/-- The loop of `validate` over the remaining segments, the next one at index `i`. -/
def validateFrom : Nat → List (List Char) → Except LumencastError Unit
  | _, [] => .ok ()
  | i, segment :: rest => do
      validateSegment i segment
      validateFrom (i + 1) rest

def validate (s : String) : Except LumencastError Unit :=
  if s.isEmpty then .error (.invalidPath "empty leaf path") else validateFrom 0 (segments s)

namespace LeafPath

/-- Parse and validate a leaf path string. -/
def parse (s : String) : Except LumencastError LeafPath := do
  validate s
  return ⟨s⟩

/-- The path equals `pre` or continues it behind a dot. -/
def startsWithPrefix (p : LeafPath) (pre : String) : Bool :=
  if p.str = pre then true
  else
    match stripPrefix pre.toList p.str.toList with
    | some rest => rest.head? == some '.'
    | none => false

def hasScope (p : LeafPath) : Bool := p.str.toList.contains '\x7b'

/-- A string passes the validating constructor. -/
def Valid (s : String) : Prop := validate s = .ok ()

instance (s : String) : Decidable (Valid s) :=
  inferInstanceAs (Decidable (validate s = .ok ()))

theorem parse_eq_ok {s : String} {p : LeafPath} : parse s = .ok p ↔ Valid s ∧ p = ⟨s⟩ := by
  unfold parse Valid
  cases h : validate s with
  | error e => simp [bind, Except.bind]
  | ok u => simp [bind, Except.bind, pure, Except.pure, eq_comm]

theorem parse_of_valid {s : String} (h : Valid s) : parse s = .ok ⟨s⟩ :=
  parse_eq_ok.mpr ⟨h, rfl⟩

theorem startsWithPrefix_iff {p : LeafPath} {pre : String} :
    p.startsWithPrefix pre = true ↔
      p.str = pre ∨ ∃ rest, p.str.toList = pre.toList ++ '.' :: rest := by
  unfold startsWithPrefix
  by_cases same : p.str = pre
  · simp [same]
  · rw [if_neg same]
    cases stripped : stripPrefix pre.toList p.str.toList with
    | none =>
        constructor
        · intro h
          cases h
        · rintro (h | ⟨rest, h⟩)
          · exact absurd h same
          · rw [stripPrefix_eq_some.mpr h] at stripped
            cases stripped
    | some rest =>
        rw [stripPrefix_eq_some] at stripped
        constructor
        · intro dotted
          obtain ⟨tail, rfl⟩ := List.head?_eq_some_iff.mp (beq_iff_eq.mp dotted)
          exact .inr ⟨tail, stripped⟩
        · rintro (h | ⟨tail, h⟩)
          · exact absurd h same
          · rw [List.append_cancel_left (stripped.symm.trans h)]
            rfl

/-- A textual prefix that the path continues behind a dot is a prefix of its segments. -/
theorem segments_prefix_of_startsWithPrefix {p : LeafPath} {pre : String}
    (h : p.startsWithPrefix pre = true) : segments pre <+: segments p.str := by
  rcases startsWithPrefix_iff.mp h with rfl | ⟨rest, h⟩
  · exact List.prefix_rfl
  · exact segments_prefix_of_append_dot h

/-- The textual test is the prefix test on segments. -/
theorem startsWithPrefix_iff_segments {p : LeafPath} {pre : String} :
    p.startsWithPrefix pre = true ↔ segments pre <+: segments p.str := by
  constructor
  · exact segments_prefix_of_startsWithPrefix
  · rintro ⟨behind, split⟩
    rw [startsWithPrefix_iff]
    have text := joinSegments_segments p.str
    rw [← split] at text
    cases behind with
    | nil =>
        rw [List.append_nil, joinSegments_segments] at text
        exact .inl (String.toList_inj.mp text.symm)
    | cons next behind =>
        obtain ⟨head, rest, front⟩ := exists_segments_cons pre
        have nonempty : segments pre ≠ [] := by
          rw [front]
          exact List.cons_ne_nil head rest
        rw [joinSegments_append nonempty (List.cons_ne_nil next behind),
          joinSegments_segments] at text
        exact .inr ⟨_, text.symm⟩

theorem validateFrom_append {i : Nat} {l r : List (List Char)} :
    validateFrom i (l ++ r) = .ok () ↔
      validateFrom i l = .ok () ∧ validateFrom (i + l.length) r = .ok () := by
  induction l generalizing i with
  | nil => simp [validateFrom]
  | cons segment l ih =>
      have length : i + (segment :: l).length = i + 1 + l.length := by
        rw [List.length_cons]
        omega
      simp only [List.cons_append, validateFrom, length]
      cases validateSegment i segment with
      | error e => simp [bind, Except.bind]
      | ok u => exact ih

/-- The path with one more segment, of length `n + 1`. -/
def child (path : String) (n : Nat) : String :=
  String.ofList (path.toList ++ '.' :: List.replicate (n + 1) 'x')

theorem child_toList (path : String) (n : Nat) :
    (child path n).toList = path.toList ++ '.' :: List.replicate (n + 1) 'x' :=
  String.toList_ofList

theorem bytes_replicate (n : Nat) : bytes (List.replicate n 'x') = List.replicate n 120 := by
  induction n with
  | zero => rfl
  | succ n ih =>
      rw [List.replicate_succ, bytes, List.flatMap_cons, ← bytes, ih]
      rfl

theorem validateSegment_replicate (i n : Nat) :
    validateSegment i (List.replicate (n + 1) 'x') = .ok () := by
  have identifier : isIdentifier (List.replicate (n + 1) 'x') = true := by
    have letter : isIdentByte 120 = true := by decide
    have first : (isAsciiAlphabetic 120 || (120 : UInt8) == 95) = true := by decide
    rw [isIdentifier, bytes_replicate, List.replicate_succ]
    simp only [first, Bool.true_and, List.all_replicate, letter, ite_self]
  have unscoped : isScopePlaceholder (List.replicate (n + 1) 'x') = false := by
    simp [isScopePlaceholder, List.replicate_succ]
  have unreserved : ['_', '_'].isPrefixOf (List.replicate (n + 1) 'x') = false := rfl
  simp [validateSegment, unscoped, unreserved, isSegmentToken, identifier]

theorem valid_child {path : String} (valid : Valid path) (n : Nat) : Valid (child path n) := by
  have split : segments (child path n) = segments path ++ [List.replicate (n + 1) 'x'] := by
    have undotted : '.' ∉ List.replicate (n + 1) 'x' := by simp
    rw [segments, child_toList, List.splitOn_append_cons_self]
    exact congrArg _ (List.splitOn_eq_singleton undotted)
  have nonempty : ¬(child path n).isEmpty = true := by
    intro empty
    have chars := congrArg String.toList (String.isEmpty_iff.mp empty)
    rw [child_toList] at chars
    simp at chars
  unfold Valid validate at valid ⊢
  rw [ite_error_eq_ok] at valid ⊢
  refine ⟨nonempty, ?_⟩
  rw [split, validateFrom_append]
  refine ⟨valid.2, ?_⟩
  rw [validateFrom, validateSegment_replicate]
  rfl

/-- One of the children is outside a given list. -/
theorem exists_child_notMem (path : String) (taken : List String) :
    ∃ n, child path n ∉ taken := by
  obtain ⟨bound, short⟩ : ∃ bound, ∀ s ∈ taken, s.length ≤ bound := by
    induction taken with
    | nil => exact ⟨0, by simp⟩
    | cons s taken ih =>
        obtain ⟨bound, short⟩ := ih
        refine ⟨max s.length bound, fun t ht => ?_⟩
        rcases List.mem_cons.mp ht with rfl | later
        · exact Nat.le_max_left ..
        · exact Nat.le_trans (short t later) (Nat.le_max_right ..)
  refine ⟨bound, fun member => ?_⟩
  have length : (child path bound).length = path.length + bound + 2 := by
    rw [← String.length_toList, child_toList, List.length_append, String.length_toList]
    simp
    omega
  have := short _ member
  omega

/-- Every prefix that the path starts with is one that its children start with. -/
theorem startsWithPrefix_child {path pre : String} (n : Nat)
    (h : (⟨path⟩ : LeafPath).startsWithPrefix pre = true) :
    (⟨child path n⟩ : LeafPath).startsWithPrefix pre = true := by
  rw [startsWithPrefix_iff] at h ⊢
  refine .inr ?_
  rcases h with rfl | ⟨rest, h⟩
  · exact ⟨_, child_toList ..⟩
  · refine ⟨rest ++ '.' :: List.replicate (n + 1) 'x', ?_⟩
    rw [child_toList, h, List.append_assoc, List.cons_append]

example : (parse "players.0.score").toOption = some ⟨"players.0.score"⟩ := by decide

example : (parse "1abc").toOption = none := by decide

end LeafPath
end Lumencast.Protocol
