import EngineNames.Proofs.Resolver.Runs

/-! # Queries

Whatever a resolver is asked, it resolves one handle and tells the name in some form, or it only
reads the index and the number of handles and leaves the session alone.
-/

namespace EngineNames

variable {σ τ : Type}

/-- What may be asked of a resolver. -/
inductive Query where
  | resolve (h : Handle)
  | rawUnits (h : Handle)
  | rawText (h : Handle)
  | displayUnits (h : Handle)
  | displayText (h : Handle)
  | identifier (h : Handle)
  | indexText (index : UInt32)
  | comparisonIndex (h : Handle)
  | number (h : Handle)
  | sameName (g h : Handle)
deriving DecidableEq, Repr

/-- What a query is answered with. -/
inductive Answer where
  | name (name : Name)
  | units (units : List UInt16)
  | text (text : String)
  | index (index : Option UInt32)
  | number (number : UInt32)
  | same (same : Bool)
deriving DecidableEq, Repr

namespace Query

/-- The handle that is resolved for a query; the queries on identity resolve none. -/
def resolved? : Query → Option Handle
  | resolve h | rawUnits h | rawText h | displayUnits h | displayText h | identifier h => some h
  | indexText index => some (.index index none)
  | comparisonIndex _ | number _ | sameName _ _ => none

/-- How a query tells the name that it resolved. -/
def tell : Query → Name → Answer
  | rawUnits _, n => .units n.raw
  | rawText _, n => .text n.rawText
  | displayUnits _, n => .units n.displayUnits
  | displayText _, n | indexText _, n => .text n.display
  | identifier _, n => .text n.identifier
  | _, n => .name n

end Query

namespace Resolver

def ask (r : Resolver σ) : Query → Run σ Answer
  | .resolve h => .name <$> r.resolve h
  | .rawUnits h => .units <$> r.rawUnits h
  | .rawText h => .text <$> r.rawText h
  | .displayUnits h => .units <$> r.displayUnits h
  | .displayText h => .text <$> r.displayText h
  | .identifier h => .text <$> r.identifier h
  | .indexText index => .text <$> r.indexText index
  | .comparisonIndex h => liftM ((r.comparisonIndex? h).map .index)
  | .number h => liftM ((r.number h).map .number)
  | .sameName g h => liftM ((r.sameName g h).map .same)

/-- Queries that are asked one after the other. -/
def askAll (r : Resolver σ) (queries : List Query) : Run σ (List Answer) :=
  queries.mapM r.ask

/-- The names that are resolved in a run of queries. -/
def names (r : Resolver σ) (s : Session σ) : List Query → Except Trap (List Name)
  | [] => .ok []
  | q :: queries =>
      match q.resolved? with
      | some h => do
          let (name, next) ← (r.resolve h).run s
          return name :: (← names r next queries)
      | none => do
          let (_, next) ← (r.ask q).run s
          names r next queries

variable {r : Resolver σ} {s : Session σ} {q : Query} {h : Handle}

theorem ask_run_of_resolved (hq : q.resolved? = some h) :
    (r.ask q).run s = ((r.resolve h).run s).map fun found => (q.tell found.1, found.2) := by
  cases q <;> cases hq <;>
    simp only [ask, rawUnits, rawText, displayUnits, displayText, identifier, indexText,
      StateT.run_map] <;>
    cases (r.resolve _).run s <;> rfl

/-- Queries on identity read the target, and that is all. What they are answered goes by the process
and the layout. -/
theorem exists_ask_run_of_identity (p : Resolver τ) (r : Resolver σ)
    (hprocess : p.process = r.process) (hlayout : p.layout = r.layout) (hq : q.resolved? = none) :
    ∃ answer : Except Trap Answer, (∀ t, (p.ask q).run t = answer.map (·, t)) ∧
      ∀ s, (r.ask q).run s = answer.map (·, s) := by
  cases q with
  | comparisonIndex h =>
      have hindex : p.comparisonIndex? h = r.comparisonIndex? h := by
        simp only [comparisonIndex?, hprocess, hlayout]
      simp only [ask, hindex]
      exact ⟨_, Run.run_lift _, Run.run_lift _⟩
  | number h =>
      have hnumber : p.number h = r.number h := by
        simp only [Resolver.number, hprocess, hlayout]
      simp only [ask, hnumber]
      exact ⟨_, Run.run_lift _, Run.run_lift _⟩
  | sameName g h =>
      have hsame : p.sameName g h = r.sameName g h := by
        simp only [sameName, hprocess, hlayout]
      simp only [ask, hsame]
      exact ⟨_, Run.run_lift _, Run.run_lift _⟩
  | _ => cases hq

theorem eq_of_ask_run_of_identity {answer : Answer} {t : Session σ} (hq : q.resolved? = none)
    (hrun : (r.ask q).run s = .ok (answer, t)) : t = s := by
  obtain ⟨told, -, hask⟩ := exists_ask_run_of_identity r r rfl rfl hq
  rw [hask] at hrun
  obtain ⟨_, -, heq⟩ := map_eq_ok_iff.mp hrun
  exact (Prod.mk.inj heq).2.symm

theorem askAll_run_cons (q : Query) (queries : List Query) :
    (r.askAll (q :: queries)).run s = (r.ask q).run s >>= fun first =>
      ((r.askAll queries).run first.2).map fun rest => (first.1 :: rest.1, rest.2) := by
  simp only [askAll, List.mapM_cons, StateT.run_bind]
  rfl

theorem names_cons_of_resolved (hq : q.resolved? = some h) (queries : List Query) :
    r.names s (q :: queries) = (r.resolve h).run s >>= fun found =>
      (r.names found.2 queries).map (found.1 :: ·) := by
  rw [names, hq]
  rfl

theorem names_cons_of_identity (hq : q.resolved? = none) (queries : List Query) :
    r.names s (q :: queries) = (r.ask q).run s >>= fun found => r.names found.2 queries := by
  rw [names, hq]

end Resolver

end EngineNames
