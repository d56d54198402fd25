import Lumencast.Foundation.Replacement
import Lumencast.Foundation.Trace
import Lumencast.Protocol.PathGrammar

/-!
# Substitution of scopes

`LeafPath.substitute` replaces placeholders in the text of the path, one binding after the
other. On a path of the grammar this is a substitution of segments: a placeholder that has
a binding becomes the segments of its replacement, and any other segment stays. A
replacement has no brace, so it neither forms a placeholder nor takes part in a later
binding.
-/

namespace Lumencast.Protocol

open Foundation

namespace LeafPath

/-- One pass of the loop in `substitute`. -/
def substituteOne (out : List Char) (binding : String × String) : List Char :=
  replaceAll (placeholder binding.1.toList) binding.2.toList out

def substitute (p : LeafPath) (bindings : List (String × String)) : LeafPath :=
  ⟨String.ofList (bindings.foldl substituteOne p.str.toList)⟩

/-- What a segment becomes: the segments of the replacement if it is a placeholder that has
a binding. -/
def substituteSegment (bindings : List (String × String)) (segment : List Char) :
    List (List Char) :=
  match bindings.find? fun b => segment == placeholder b.1.toList with
  | some b => segments b.2
  | none => [segment]

end LeafPath

/-- A segment is a placeholder of a name without braces, or has no opening brace. -/
inductive Clean : List Char → Prop
  | plain {segment : List Char} (h : '\x7b' ∉ segment) : Clean segment
  | placeholder {name : List Char} (opening : '\x7b' ∉ name) (closing : '\x7d' ∉ name) :
      Clean (placeholder name)

/-! ## One binding -/

theorem placeholder_inj {name other : List Char} (same : placeholder name = placeholder other) :
    name = other :=
  List.append_cancel_right (List.cons.inj same).2

/-- A placeholder stands in front of a text only if the names agree. -/
theorem name_eq_of_starts {name other rest : List Char} (closing : '\x7d' ∉ name)
    (otherClosing : '\x7d' ∉ other) (h : placeholder name <+: placeholder other ++ rest) :
    name = other := by
  obtain ⟨tail, same⟩ := h
  have inner : name ++ '\x7d' :: tail = other ++ '\x7d' :: rest := by
    simpa [placeholder] using same
  rcases append_eq_append_cons_iff.mp inner with ⟨mid, reaches, _⟩ | ⟨mid, _, passes⟩
  · exact absurd (reaches ▸ List.mem_append_right other List.mem_cons_self) closing
  · cases mid with
    | nil => simp_all
    | cons c mid =>
        obtain ⟨rfl, _⟩ := List.cons.inj passes
        simp_all

section

variable {name replacement : List Char}

theorem replaceAll_clean_append {segment : List Char} (closing : '\x7d' ∉ name)
    (clean : Clean segment) (rest : List Char) :
    replaceAll (placeholder name) replacement (segment ++ rest) =
      (if segment = placeholder name then replacement else segment) ++
        replaceAll (placeholder name) replacement rest := by
  cases clean with
  | plain absent =>
      have other : segment ≠ placeholder name := fun same => absent (same ▸ List.mem_cons_self)
      rw [if_neg other]
      exact replaceAll_append_of_notMem absent rest
  | @placeholder other opening otherClosing =>
      by_cases same : name = other
      · subst same
        rw [if_pos rfl]
        exact replaceAll_word_append (List.cons_ne_nil _ _) rest
      · rw [if_neg fun equal => same (placeholder_inj equal).symm]
        have apart : ¬placeholder name <+: '\x7b' :: (other ++ ['\x7d'] ++ rest) := fun h =>
          same (name_eq_of_starts closing otherClosing h)
        have absent : '\x7b' ∉ other ++ ['\x7d'] := by simp [opening]
        change replaceAll _ _ ('\x7b' :: (other ++ ['\x7d'] ++ rest)) = _
        rw [replaceAll_cons_of_not_starts apart]
        exact congrArg (List.cons '\x7b') (replaceAll_append_of_notMem absent rest)

theorem replaceAll_clean {segment : List Char} (closing : '\x7d' ∉ name)
    (clean : Clean segment) : replaceAll (placeholder name) replacement segment =
      if segment = placeholder name then replacement else segment := by
  have pieces := @replaceAll_clean_append name replacement segment closing clean []
  rwa [List.append_nil, replaceAll_nil, List.append_nil] at pieces

/-- On clean segments the textual replacement works segment by segment. -/
theorem replaceAll_joinSegments {parts : List (List Char)} (closing : '\x7d' ∉ name)
    (clean : ∀ part ∈ parts, Clean part) :
    replaceAll (placeholder name) replacement (joinSegments parts) =
      joinSegments (parts.map fun part =>
        if part = placeholder name then replacement else part) := by
  induction parts with
  | nil => rfl
  | cons part parts ih =>
      obtain ⟨here, later⟩ := List.forall_mem_cons.mp clean
      cases parts with
      | nil => simpa [joinSegments] using replaceAll_clean closing here
      | cons next parts =>
          have dot : '\x7b' ∉ ['.'] := by decide
          have passes := ih later
          rw [List.map_cons] at passes
          rw [joinSegments_cons_cons, replaceAll_clean_append closing here, List.map_cons,
            List.map_cons, joinSegments_cons_cons, ← passes]
          exact congrArg _ (replaceAll_append_of_notMem dot _)

end

namespace LeafPath

/-! ## Bindings of segments -/

theorem substituteSegment_of_notMem {bindings : List (String × String)} {segment : List Char}
    (absent : '\x7b' ∉ segment) : substituteSegment bindings segment = [segment] := by
  have unbound : (bindings.find? fun b => segment == placeholder b.1.toList) = none := by
    refine List.find?_eq_none.mpr fun b _ same => absent ?_
    exact beq_iff_eq.mp same ▸ List.mem_cons_self
  rw [substituteSegment, unbound]

theorem substituteSegment_ne_nil (bindings : List (String × String)) (segment : List Char) :
    substituteSegment bindings segment ≠ [] := by
  unfold substituteSegment
  split
  · exact List.splitOn_ne_nil '.' _
  · exact List.cons_ne_nil _ _

/-- What a segment becomes is one of two things. -/
theorem substituteSegment_cases (bindings : List (String × String)) (segment : List Char) :
    (∃ b ∈ bindings, segment = placeholder b.1.toList ∧
        substituteSegment bindings segment = segments b.2) ∨
      (∀ b ∈ bindings, segment ≠ placeholder b.1.toList) ∧
        substituteSegment bindings segment = [segment] := by
  unfold substituteSegment
  split
  · next b found =>
    have same := List.find?_some found
    exact .inl ⟨b, List.mem_of_find?_eq_some found, beq_iff_eq.mp same, rfl⟩
  · next unbound =>
    refine .inr ⟨fun b member same => ?_, rfl⟩
    exact List.find?_eq_none.mp unbound b member (beq_iff_eq.mpr same)

theorem substituteSegment_cons_self (b : String × String) (bindings : List (String × String)) :
    substituteSegment (b :: bindings) (placeholder b.1.toList) = segments b.2 := by
  have bound : (placeholder b.1.toList == placeholder b.1.toList) = true := beq_iff_eq.mpr rfl
  rw [substituteSegment, List.find?_cons, bound]

theorem substituteSegment_cons_of_ne {b : String × String} {segment : List Char}
    (other : segment ≠ placeholder b.1.toList) (bindings : List (String × String)) :
    substituteSegment (b :: bindings) segment = substituteSegment bindings segment := by
  have unbound : (segment == placeholder b.1.toList) = false := beq_eq_false_iff_ne.mpr other
  rw [substituteSegment, List.find?_cons, unbound, substituteSegment]

/-- Bindings after the first find nothing in its replacement. -/
theorem substituteSegment_cons {b : String × String} (bindings : List (String × String))
    (plain : '\x7b' ∉ b.2.toList) (segment : List Char) :
    substituteSegment (b :: bindings) segment =
      (substituteSegment [b] segment).flatMap (substituteSegment bindings) := by
  by_cases same : segment = placeholder b.1.toList
  · have still : ∀ part ∈ segments b.2, substituteSegment bindings part = [part] := by
      refine fun part member => substituteSegment_of_notMem fun brace => plain ?_
      exact mem_of_mem_segments (by decide) member brace
    rw [same, substituteSegment_cons_self, substituteSegment_cons_self, List.flatMap_congr still,
      List.flatMap_singleton']
  · have alone : substituteSegment [] segment = [segment] := rfl
    rw [substituteSegment_cons_of_ne same, substituteSegment_cons_of_ne same, alone,
      List.flatMap_singleton]

theorem substituteOne_joinSegments {b : String × String} {parts : List (List Char)}
    (closing : '\x7d' ∉ b.1.toList) (clean : ∀ part ∈ parts, Clean part) :
    substituteOne (joinSegments parts) b =
      joinSegments (parts.flatMap (substituteSegment [b])) := by
  rw [substituteOne, replaceAll_joinSegments closing clean,
    joinSegments_flatMap (substituteSegment_ne_nil [b])]
  refine congrArg joinSegments (List.map_congr_left fun part _ => ?_)
  by_cases same : part = placeholder b.1.toList
  · rw [if_pos same, Function.comp_apply, same, substituteSegment_cons_self,
      joinSegments_segments]
  · have alone : substituteSegment [] part = [part] := rfl
    rw [if_neg same, Function.comp_apply, substituteSegment_cons_of_ne same, alone,
      joinSegments_singleton]

theorem clean_of_mem_substituteSegment {b : String × String} (plain : '\x7b' ∉ b.2.toList)
    {segment part : List Char} (clean : Clean segment)
    (member : part ∈ substituteSegment [b] segment) : Clean part := by
  rcases substituteSegment_cases [b] segment with ⟨c, bound, _, split⟩ | ⟨_, split⟩
  · obtain rfl := List.mem_singleton.mp bound
    rw [split] at member
    exact .plain fun brace => plain (mem_of_mem_segments (by decide) member brace)
  · rw [split] at member
    exact List.mem_singleton.mp member ▸ clean

/-- The loop in `substitute` is one substitution of segments. -/
theorem foldl_substituteOne {bindings : List (String × String)} {parts : List (List Char)}
    (closing : ∀ b ∈ bindings, '\x7d' ∉ b.1.toList)
    (plain : ∀ b ∈ bindings, '\x7b' ∉ b.2.toList) (clean : ∀ part ∈ parts, Clean part) :
    bindings.foldl substituteOne (joinSegments parts) =
      joinSegments (parts.flatMap (substituteSegment bindings)) := by
  induction bindings generalizing parts with
  | nil => exact congrArg joinSegments (List.flatMap_singleton' parts).symm
  | cons b bindings ih =>
      obtain ⟨closed, closing⟩ := List.forall_mem_cons.mp closing
      obtain ⟨here, plain⟩ := List.forall_mem_cons.mp plain
      have cleaned : ∀ part ∈ parts.flatMap (substituteSegment [b]), Clean part := by
        intro part member
        obtain ⟨segment, among, member⟩ := List.mem_flatMap.mp member
        exact clean_of_mem_substituteSegment here (clean segment among) member
      rw [List.foldl_cons, substituteOne_joinSegments closed clean, ih closing plain cleaned,
        List.flatMap_assoc]
      exact congrArg joinSegments
        (List.flatMap_congr fun segment _ => (substituteSegment_cons bindings here segment).symm)

/-- With distinct names a placeholder has at most one binding. -/
theorem substituteSegment_perm {bindings others : List (String × String)}
    (distinct : (bindings.map Prod.fst).Nodup) (perm : bindings.Perm others)
    (segment : List Char) :
    substituteSegment bindings segment = substituteSegment others segment := by
  rcases substituteSegment_cases bindings segment with ⟨b, member, here, split⟩ | ⟨unbound, split⟩
  · rcases substituteSegment_cases others segment with ⟨c, among, there, other⟩ | ⟨unbound, _⟩
    · have names : b.1 = c.1 := String.toList_injective (placeholder_inj (here.symm.trans there))
      obtain rfl := List.inj_on_of_nodup_map distinct member (perm.mem_iff.mpr among) names
      rw [split, other]
    · exact absurd here (unbound b (perm.mem_iff.mp member))
  · rcases substituteSegment_cases others segment with ⟨c, among, there, _⟩ | ⟨_, other⟩
    · exact absurd there (unbound c (perm.mem_iff.mpr among))
    · rw [split, other]

/-! ## Paths -/

theorem not_mem_of_isName {name : List Char} (h : IsName name) :
    '\x7b' ∉ name ∧ '\x7d' ∉ name :=
  ⟨fun brace => absurd (h.2 _ brace) (by decide), fun brace => absurd (h.2 _ brace) (by decide)⟩

/-- A segment of a path is a placeholder or has no brace. -/
theorem placeholder_or_plain {segment : List Char} (h : IsSegment segment) :
    (∃ name, IsName name ∧ segment = placeholder name) ∨ '\x7b' ∉ segment := by
  cases h with
  | placeholder h => exact .inl ⟨_, h, rfl⟩
  | numeral h => exact .inr fun brace => absurd (h.2 _ brace) (by decide)
  | ident h =>
      obtain ⟨first, rest, rfl, initial, others⟩ := h
      refine .inr fun brace => ?_
      rcases List.mem_cons.mp brace with rfl | later
      · exact absurd initial (by decide)
      · exact absurd (others _ later) (by decide)

theorem clean_of_isSegment {segment : List Char} (h : IsSegment segment) : Clean segment := by
  rcases placeholder_or_plain h with ⟨name, named, rfl⟩ | absent
  · exact .placeholder (not_mem_of_isName named).1 (not_mem_of_isName named).2
  · exact .plain absent

section

variable {p : LeafPath} {bindings : List (String × String)} (valid : Valid p.str)
  (named : ∀ b ∈ bindings, IsName b.1.toList)
  (replacements : ∀ b ∈ bindings,
    Valid b.2 ∧ '\x7b' ∉ b.2.toList ∧ '\x7d' ∉ b.2.toList)

include valid named replacements

theorem substitute_eq : p.substitute bindings =
    ⟨String.ofList (joinSegments ((segments p.str).flatMap (substituteSegment bindings)))⟩ := by
  have closing : ∀ b ∈ bindings, '\x7d' ∉ b.1.toList := fun b member =>
    (not_mem_of_isName (named b member)).2
  have clean : ∀ segment ∈ segments p.str, Clean segment := fun segment member =>
    clean_of_isSegment ((valid_iff.mp valid).segments segment member)
  rw [substitute, ← joinSegments_segments,
    foldl_substituteOne closing (fun b member => (replacements b member).2.1) clean]

theorem segments_substitute : segments (p.substitute bindings).str =
    (segments p.str).flatMap (substituteSegment bindings) := by
  rw [segments, substitute_eq valid named replacements, String.toList_ofList]
  refine List.splitOn_intercalate '.' (fun part member => ?_) ?_
  · obtain ⟨segment, among, member⟩ := List.mem_flatMap.mp member
    rcases substituteSegment_cases bindings segment with ⟨b, _, _, split⟩ | ⟨_, split⟩
    · exact notMem_of_mem_splitOn (split ▸ member)
    · rw [split, List.mem_singleton] at member
      exact member ▸ notMem_of_mem_splitOn among
  · intro empty
    obtain ⟨head, rest, whole⟩ := exists_segments_cons p.str
    have first : head ∈ segments p.str := whole ▸ List.mem_cons_self
    exact substituteSegment_ne_nil bindings head (List.flatMap_eq_nil_iff.mp empty head first)

/-- The first segment is that of the path or that of a replacement. -/
theorem valid_substitute : Valid (p.substitute bindings).str := by
  have split := segments_substitute valid named replacements
  have path := valid_iff.mp valid
  have accepted : ∀ part ∈ segments (p.substitute bindings).str, IsSegment part := by
    intro part member
    rw [split] at member
    obtain ⟨segment, among, member⟩ := List.mem_flatMap.mp member
    rcases substituteSegment_cases bindings segment with ⟨b, bound, _, here⟩ | ⟨_, here⟩
    · rw [here] at member
      exact (valid_iff.mp (replacements b bound).1).segments part member
    · rw [here, List.mem_singleton] at member
      exact member ▸ path.segments segment among
  refine valid_iff.mpr ⟨fun empty => ?_, accepted, fun tail reserved => ?_⟩
  · have only : [] ∈ segments (p.substitute bindings).str := by
      rw [empty]
      decide
    exact ne_nil_of_isSegment (accepted [] only) rfl
  · obtain ⟨head, rest, whole⟩ := exists_segments_cons p.str
    have first : (substituteSegment bindings head).head? = some ('_' :: '_' :: tail) := by
      rw [split, whole, List.flatMap_cons, List.head?_append_of_ne_nil] at reserved
      · exact reserved
      · exact substituteSegment_ne_nil bindings head
    rcases substituteSegment_cases bindings head with ⟨b, bound, _, here⟩ | ⟨_, here⟩
    · rw [here] at first
      exact (valid_iff.mp (replacements b bound).1).reserved tail first
    · rw [here, List.head?_cons] at first
      refine path.reserved tail ?_
      rw [whole, List.head?_cons]
      exact first

/-- A brace is left exactly where a placeholder has no binding. -/
theorem hasScope_substitute : (p.substitute bindings).hasScope = false ↔
    ∀ name, placeholder name ∈ segments p.str → ∃ b ∈ bindings, b.1.toList = name := by
  have brace : '\x7b' ≠ '.' := by decide
  have free : (p.substitute bindings).hasScope = false ↔ ∀ segment ∈ segments p.str,
      ∀ part ∈ substituteSegment bindings segment, '\x7b' ∉ part := by
    rw [← Bool.not_eq_true, hasScope, List.contains_iff_mem, substitute_eq valid named replacements,
      String.toList_ofList, mem_joinSegments brace]
    simp only [not_exists, not_and, List.forall_mem_flatMap]
  rw [free]
  constructor
  · intro free name member
    rcases substituteSegment_cases bindings (placeholder name) with ⟨b, bound, same, _⟩ | ⟨_, here⟩
    · exact ⟨b, bound, (placeholder_inj same).symm⟩
    · have stays : placeholder name ∈ substituteSegment bindings (placeholder name) := by
        rw [here]
        exact List.mem_cons_self
      exact absurd List.mem_cons_self (free _ member _ stays)
  · intro bound segment among part member here
    rcases substituteSegment_cases bindings segment with ⟨b, isBound, _, split⟩ | ⟨unbound, split⟩
    · rw [split] at member
      exact (replacements b isBound).2.1 (mem_of_mem_segments brace member here)
    · rw [split, List.mem_singleton] at member
      subst member
      have path := (valid_iff.mp valid).segments part among
      rcases placeholder_or_plain path with ⟨name, _, rfl⟩ | absent
      · obtain ⟨b, isBound, rfl⟩ := bound name among
        exact unbound b isBound rfl
      · exact absent here

end

/-- Substitution replaces the segments that are bound placeholders, in whatever order the
bindings stand, gives a path that parses, and leaves no placeholder exactly if all are
bound. -/
theorem substitute_exact {p : LeafPath} {bindings : List (String × String)}
    (valid : Valid p.str) (distinct : (bindings.map Prod.fst).Nodup)
    (named : ∀ b ∈ bindings, IsName b.1.toList)
    (replacements : ∀ b ∈ bindings,
      Valid b.2 ∧ '\x7b' ∉ b.2.toList ∧ '\x7d' ∉ b.2.toList) :
    p.substitute bindings =
        ⟨String.ofList (joinSegments ((segments p.str).flatMap (substituteSegment bindings)))⟩ ∧
      (∀ others, bindings.Perm others → p.substitute others = p.substitute bindings) ∧
      Valid (p.substitute bindings).str ∧
      ((p.substitute bindings).hasScope = false ↔
        ∀ name, placeholder name ∈ segments p.str → ∃ b ∈ bindings, b.1.toList = name) := by
  refine ⟨substitute_eq valid named replacements, fun others perm => ?_,
    valid_substitute valid named replacements, hasScope_substitute valid named replacements⟩
  rw [substitute_eq valid named replacements,
    substitute_eq valid (fun b member => named b (perm.mem_iff.mpr member))
      (fun b member => replacements b (perm.mem_iff.mpr member)),
    funext (substituteSegment_perm distinct perm)]

/-- A path with two scopes, both bound. -/
theorem substitute_exact_player :
    let p : LeafPath := ⟨"\x7bplayer\x7d.\x7bstat\x7d"⟩
    let bindings := [("player", "players.0"), ("stat", "score")]
    p.substitute bindings =
        ⟨String.ofList (joinSegments ((segments p.str).flatMap (substituteSegment bindings)))⟩ ∧
      (∀ others, bindings.Perm others → p.substitute others = p.substitute bindings) ∧
      Valid (p.substitute bindings).str ∧
      ((p.substitute bindings).hasScope = false ↔
        ∀ name, placeholder name ∈ segments p.str → ∃ b ∈ bindings, b.1.toList = name) :=
  substitute_exact (by decide) (by decide) (by decide) (by decide)

example : (LeafPath.substitute ⟨"\x7bplayer\x7d.score"⟩ [("player", "players.0")]).str =
    "players.0.score" := by decide

end LeafPath

end Lumencast.Protocol
