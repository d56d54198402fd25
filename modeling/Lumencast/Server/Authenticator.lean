import Lumencast.Foundation.Overwrite
import Lumencast.Server.Role

/-!
# The token store

An in-memory authenticator maps tokens to identities. A harness names its tokens
by placeholders, each of which stands for a role; where two placeholders share a
token, the one that comes last in their order decides.
-/

namespace Lumencast.Server

open Foundation Protocol

/-- Why a token is not accepted. -/
inductive AuthError where
  | denied
  | unavailable (reason : String)
  deriving DecidableEq, Repr

/-- The identities of the accepted tokens. -/
abbrev MapAuthenticator := Std.ExtTreeMap String Identity

def MapAuthenticator.authenticate (auth : MapAuthenticator) (token : String) :
    Except AuthError Identity :=
  auth[token]?.elim (.error .denied) .ok

/-- The roles of the placeholders that stand for a token. -/
def placeholderRoles : List (String × Role) :=
  [("$TOKEN_OPERATOR", .operator), ("$TOKEN_VIEWER", .viewer), ("$TOKEN_SERVICE", .service),
    ("$TOKEN_TEST", .test)]

def roleForPlaceholder (placeholder : String) : Option Role := placeholderRoles.lookup placeholder

/-- The entry of the token store that a placeholder and its token make. -/
def installedToken (entry : String × String) : Option (String × Identity) :=
  if entry.1 = "$TOKEN_INVALID" then none
  else (roleForPlaceholder entry.1).map fun role =>
    (entry.2, { subject := entry.1, role, paths := none })

def installTokens (auth : MapAuthenticator) (tokens : Std.ExtTreeMap String String) :
    MapAuthenticator :=
  overwrite auth (tokens.toList.filterMap installedToken)

/-- The entry of a placeholder with a role. -/
theorem installedToken_eq_some {entry : String × String} {token : String} {identity : Identity} :
    installedToken entry = some (token, identity) ↔
      entry = (identity.subject, token) ∧ ∃ role, roleForPlaceholder identity.subject = some role ∧
        identity = { subject := identity.subject, role, paths := none } := by
  obtain ⟨placeholder, value⟩ := entry
  have invalid : roleForPlaceholder "$TOKEN_INVALID" = none := rfl
  have looked : installedToken (placeholder, value) = (roleForPlaceholder placeholder).map
      fun role => (value, { subject := placeholder, role, paths := none }) := by
    unfold installedToken
    split
    · next never =>
      dsimp only at never
      rw [never, invalid]
      rfl
    · rfl
  rw [looked]
  constructor
  · intro installed
    obtain ⟨role, known, same⟩ := Option.map_eq_some_iff.mp installed
    cases same
    exact ⟨rfl, role, known, rfl⟩
  · rintro ⟨same, role, known, same'⟩
    cases same
    rw [known, same']
    rfl

theorem authenticate_installTokens (tokens : Std.ExtTreeMap String String) (token : String)
    (identity : Identity) :
    (installTokens ∅ tokens).authenticate token = .ok identity ↔
      ∃ role, roleForPlaceholder identity.subject = some role ∧
        identity = { subject := identity.subject, role, paths := none } ∧
        tokens[identity.subject]? = some token ∧
        ∀ other, (roleForPlaceholder other).isSome → tokens[other]? = some token →
          compare identity.subject other ≠ .lt := by
  have sorted : tokens.toList.Pairwise fun a b => compare a.1 b.1 = .lt := by
    have keys := tokens.ordered_keys
    rw [← Std.ExtTreeMap.map_fst_toList_eq_keys] at keys
    exact List.pairwise_map.mp keys
  have asymm : ∀ a b : String × String, compare a.1 b.1 = .lt → ¬compare b.1 a.1 = .lt := by
    intro a b before after
    rw [Std.OrientedOrd.eq_swap, after] at before
    cases before
  have read : (installTokens ∅ tokens).authenticate token = .ok identity ↔
      lastWrite compare (tokens.toList.filterMap installedToken) token = some identity := by
    rw [MapAuthenticator.authenticate, installTokens, getElem?_overwrite,
      Std.ExtTreeMap.getElem?_empty, Option.or_none]
    cases lastWrite compare (tokens.toList.filterMap installedToken) token <;> simp
  rw [read, lastWrite_filterMap asymm sorted]
  simp only [installedToken_eq_some]
  constructor
  · rintro ⟨_, member, ⟨rfl, role, known, same⟩, last⟩
    refine ⟨role, known, same, Std.ExtTreeMap.mem_toList_iff_getElem?_eq_some.mp member, ?_⟩
    intro other known' mapped
    obtain ⟨role', known'⟩ := Option.isSome_iff_exists.mp known'
    exact last (other, token) (Std.ExtTreeMap.mem_toList_iff_getElem?_eq_some.mpr mapped)
      { subject := other, role := role', paths := none } ⟨rfl, role', known', rfl⟩
  · rintro ⟨role, known, same, mapped, last⟩
    refine ⟨(identity.subject, token), Std.ExtTreeMap.mem_toList_iff_getElem?_eq_some.mpr mapped,
      ⟨rfl, role, known, same⟩, ?_⟩
    rintro _ member identity' ⟨rfl, role', known', _⟩
    exact last identity'.subject (Option.isSome_iff_exists.mpr ⟨role', known'⟩)
      (Std.ExtTreeMap.mem_toList_iff_getElem?_eq_some.mp member)
end Lumencast.Server
