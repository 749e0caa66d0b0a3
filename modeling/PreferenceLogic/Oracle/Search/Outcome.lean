import PreferenceLogic.Oracle.Search.Remnant
import PreferenceLogic.Oracle.Search.Space

/-!
# The search for a valuation

A search decides one literal after the other. If nothing is left of a clause, its denied literals
are the conflict: some decision about them has to change. A decision that the conflict does not
mention is passed over without a second try. A decision that it does mention is reversed, and the
conflict is kept as a clause that follows from the others.

A search holds the valuations that satisfy the clauses added so far, and the number of atoms that
these clauses reach. Its models decide all of these atoms.

Definitions:
* `Search.Outcome`: what a search ends with.
* `Search.Outcome.ofRemnants`: the search among the valuations that satisfy some clauses.
* `Space.explore`: looks for a valuation in a space and keeps what it learns about the space.
* `Search.add`, `Search.solve`: adds a clause, and looks for a model of all clauses so far.
-/

namespace PreferenceLogic

/-! ## One search -/

/-- What a search ends with. -/
inductive Search.Outcome where
  /-- The values of the decided atoms, and the space of the valuations in question. -/
  | found (path : List Literal) (space : Space)
  /-- A clause of denied literals that follows, and further clauses that follow. -/
  | refuted (conflict : Clause) (learnt : List Remnant)
deriving Repr

namespace Search.Outcome

/-- How many clauses are kept that were learnt. -/
def memory : Nat := 256

/-- The outcome of deciding a literal that holds because of a reason: a clause of denied literals
one of which would hold instead. -/
def force (l : Literal) (reason : Clause) (learnt : List Remnant) : Outcome → Outcome
  | found path space => found (l :: path) (.branch l space .closed)
  | refuted conflict more =>
    let learnt := (more.map (Remnant.reopen l.negate) ++ learnt).take memory
    if conflict.contains l.negate then
      refuted (reason ++ conflict.filter (· != l.negate)).eraseDups learnt
    else refuted conflict learnt

/-- Looks for a valuation that satisfies some clauses. Each step decides an atom; the fuel is more
than the number of atoms. -/
def ofRemnants : Nat → List Remnant → Outcome
  | 0, rs => found [] (.region (rs.map Remnant.left))
  | _ + 1, [] => found [] (.region [])
  | fuel + 1, r :: rest =>
    let rs := r :: rest
    let s := Remnant.shortest r rest
    match s.left with
    | [] => refuted s.denied []
    | [l] => force l s.denied [] (ofRemnants fuel (Remnant.after l rs))
    | l :: m :: others =>
      let l := Remnant.commonest rs (Remnant.occurrences rs l, l) (m :: others)
      match ofRemnants fuel (Remnant.after l rs) with
      | found path space =>
        let fails := (Remnant.after l.negate rs).map Remnant.left
        found (l :: path) (.branch l space (.region fails))
      | refuted conflict learnt =>
        let learnt := learnt.map (Remnant.reopen l.negate)
        if conflict.contains l.negate then
          let reason := conflict.filter (· != l.negate)
          let learnt := (⟨[l.negate], reason⟩ :: learnt).take memory
          force l.negate reason learnt
            (ofRemnants fuel (Remnant.after l.negate (learnt ++ rs)))
        else refuted conflict learnt

end Search.Outcome

/-- Looks for a valuation in a space: the values of the atoms that were decided, if there is one,
and the same space with what was learnt. -/
def Space.explore : Space → Option (List Literal) × Space
  | closed => (none, closed)
  | region clauses =>
    match Search.Outcome.ofRemnants (reachOf clauses + 1) (clauses.map Remnant.ofClause) with
    | .found path space => (some path, space)
    | .refuted _ _ => (none, closed)
  | split atom low high =>
    match low.explore with
    | (some path, low) => (some (⟨atom, false⟩ :: path), split atom low high)
    | (none, _) =>
      match high.explore with
      | (some path, high) => (some (⟨atom, true⟩ :: path), split atom closed high)
      | (none, _) => (none, closed)

/-! ## The state of a search -/

/-- The valuations that satisfy the clauses added so far. -/
structure Search where
  /-- The number of atoms up to the last one that occurs in a clause. -/
  reach : Nat
  space : Space
deriving Repr

namespace Search

/-- The search without clauses. -/
def empty : Search := ⟨0, .region []⟩

/-- Adds a clause. -/
def add (c : Clause) (s : Search) : Search := ⟨max s.reach c.reach, s.space.add c⟩

/-- The valuation of a path: the decided atoms have their values, and all others are false. -/
def valuationOf (path : List Literal) : Valuation := fun atom => path.contains ⟨atom, true⟩

/-- A model of the clauses added so far, if there is one. -/
def solve (s : Search) : Option (List Literal) × Search :=
  match s.space.explore with
  | (none, space) => (none, { s with space })
  | (some path, space) =>
    (some ((valuationOf path).literals s.reach), { s with space })

end Search

end PreferenceLogic
