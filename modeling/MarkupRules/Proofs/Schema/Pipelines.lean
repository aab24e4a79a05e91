/-
# Pipelines one after the other

A pipeline passes a document from stage to stage, whatever the stages do to its locator: each is
given what those before it made, under the locator of the document that went in. So the stages of
two pipelines may be run as one or one pipeline after the other, and a failure is that of the first
stage that fails on what it is given.

Key definitions: `PipelineError.behind`, `Pipeline.Leads`, `Pipeline.Gives`.

Key theorems: `Pipeline.runFrom_append`, `Pipeline.run_eq_ok_iff`, `Pipeline.run_eq_error_iff`,
`runStages_eq`, `Pipeline.run_composes`.
-/
import MarkupRules.Compiler
import MarkupRules.Proofs.Steps
import Mathlib.Data.List.Induction

namespace MarkupRules.Schema

open Markup (Document)

/-- The failure of a stage that has some number of stages before its pipeline. -/
def PipelineError.behind (count : Nat) (e : PipelineError) : PipelineError :=
  { e with index := count + e.index }

namespace Pipeline

/-! ### What a stage is given -/

/-- Stages that succeed one after the other lead from a document to another one. What a stage made
goes on under the locator of the first document. -/
inductive Leads : Pipeline → Document → Document → Prop where
  /-- No stages change nothing. -/
  | nil (d : Document) : Leads [] d d
  /-- One stage more. -/
  | snoc {p : Pipeline} {d e made : Document} {s : Step} (h : Leads p d e)
    (hs : s.apply e = .ok made) : Leads (p ++ [s]) d (made.withOrigin d.origin)

/-- The stage of a number is given a document: all stages before it succeed and lead there. -/
def Gives (p : Pipeline) (d : Document) (index : Nat) (s : Step) (e : Document) : Prop :=
  ∃ before after, p = before ++ s :: after ∧ before.length = index ∧ Leads before d e

variable {p : Pipeline} {d e : Document}

theorem Leads.origin (h : Leads p d e) : e.origin = d.origin := by
  cases h with
  | nil => rfl
  | snoc h hs => rfl

/-- What is passed on under the locator of the last document is under that of the first one. -/
theorem Leads.concat {made : Document} {s : Step} (h : Leads p d e) (hs : s.apply e = .ok made) :
    Leads (p ++ [s]) d (made.withOrigin e.origin) :=
  h.origin ▸ h.snoc hs

/-! ### Runs -/

/-- The number of the first stage counts for nothing but the number of the one that fails. -/
theorem runFrom_add (count index : Nat) (p : Pipeline) (d : Document) :
    runFrom (count + index) p d = (runFrom index p d).mapError (PipelineError.behind count) := by
  induction p generalizing index d with
  | nil => rfl
  | cons s p ih =>
    unfold runFrom
    cases s.apply d with
    | ok made => exact ih (index + 1) (made.withOrigin d.origin)
    | error cause => rfl

theorem runFrom_append (index : Nat) (p q : Pipeline) (d : Document) :
    runFrom index (p ++ q) d = runFrom index p d >>= runFrom (p.length + index) q := by
  induction p generalizing index d with
  | nil =>
    rw [List.length_nil, Nat.zero_add]
    rfl
  | cons s p ih =>
    rw [List.cons_append, runFrom, runFrom]
    cases s.apply d with
    | ok made =>
      have hlength : (s :: p).length + index = p.length + (index + 1) :=
        Nat.succ_add_eq_add_succ p.length index
      rw [hlength]
      exact ih (index + 1) (made.withOrigin d.origin)
    | error cause => rfl

/-- Stages behind a pipeline run on what it comes to. -/
theorem run_append (p q : Pipeline) (d : Document) :
    (p ++ q).run d =
      p.run d >>= fun e => (q.run e).mapError (PipelineError.behind p.length) := by
  unfold run
  rw [runFrom_append]
  exact congrArg _ (funext fun e => runFrom_add p.length 0 q e)

theorem run_singleton (s : Step) (d : Document) :
    run [s] d = match s.apply d with
      | .ok made => .ok (made.withOrigin d.origin)
      | .error cause => .error ⟨0, s.id, cause⟩ :=
  rfl

/-- A pipeline has a result exactly if its stages lead there. -/
theorem run_eq_ok_iff : p.run d = .ok e ↔ Leads p d e := by
  constructor
  · intro h
    induction p using List.reverseRecOn generalizing e with
    | nil =>
      cases h
      exact .nil d
    | append_singleton p s ih =>
      rw [run_append] at h
      obtain ⟨f, hf, h⟩ := bind_eq_ok_iff.1 h
      rw [run_singleton] at h
      cases hs : s.apply f with
      | ok made =>
        rw [hs] at h
        cases h
        exact (ih hf).concat hs
      | error cause =>
        rw [hs] at h
        cases h
  · intro h
    induction h with
    | nil => rfl
    | snoc h hs ih =>
      rw [run_append, ih, ok_bind, run_singleton, hs, h.origin]
      rfl

/-- A pipeline fails with the failure of a stage on what it is given. -/
theorem run_eq_error_iff {error : PipelineError} :
    p.run d = .error error ↔ ∃ s e, p.Gives d error.index s e ∧ s.apply e = .error error.cause ∧
      s.id = error.stage := by
  constructor
  · intro h
    induction p using List.reverseRecOn with
    | nil => cases h
    | append_singleton p s ih =>
      rw [run_append] at h
      rcases bind_eq_error_iff.1 h with h | ⟨e, he, h⟩
      · obtain ⟨s', e, ⟨before, after, hp, hindex, hleads⟩, hs⟩ := ih h
        refine ⟨s', e, ⟨before, after ++ [s], ?_, hindex, hleads⟩, hs⟩
        rw [hp, List.append_assoc, List.cons_append]
      · rw [run_singleton] at h
        cases hs : s.apply e with
        | ok made =>
          rw [hs] at h
          cases h
        | error cause =>
          rw [hs] at h
          cases h
          exact ⟨s, e, ⟨p, [], rfl, rfl, run_eq_ok_iff.1 he⟩, hs, rfl⟩
  · rintro ⟨s, e, ⟨before, after, rfl, hindex, hleads⟩, hs, hid⟩
    have hfails : run (s :: after) e = .error ⟨0, s.id, error.cause⟩ := by
      rw [run, runFrom, hs]
    rw [run_append, run_eq_ok_iff.2 hleads, ok_bind, hfails, hid, hindex]
    rfl

end Pipeline

end MarkupRules.Schema

namespace MarkupRules

open Markup (Document)
open Schema (Engine Pipeline)

end MarkupRules

namespace MarkupRules.Schema.Pipeline

open Markup (Document)

/-- Two pipelines one behind the other run like the second on what comes of the first, where the
numbers of failing stages are counted on. A pipeline has the result its stages lead to one after the
other, and the failure of the stage that fails on what those before it lead to. All stages are given
a document with the locator of the one that went in, and so is the result, whatever stages do. -/
theorem run_composes (p q : Pipeline) (d : Document) :
    (p ++ q).run d =
      (p.run d >>= fun e => (q.run e).mapError (PipelineError.behind p.length)) ∧
    (∀ e, p.run d = .ok e ↔ Leads p d e) ∧
    (∀ error, p.run d = .error error ↔ ∃ s e, p.Gives d error.index s e ∧
      s.apply e = .error error.cause ∧ s.id = error.stage) ∧
    (∀ index s e, p.Gives d index s e → e.origin = d.origin) ∧
    ∀ e, p.run d = .ok e → e.origin = d.origin := by
  refine ⟨run_append p q d, fun _ => run_eq_ok_iff, fun _ => run_eq_error_iff, ?_, ?_⟩
  · rintro index s e ⟨before, after, -, -, hleads⟩
    exact hleads.origin
  · intro e he
    exact (run_eq_ok_iff.1 he).origin

example : run [.of "a" ⟨"move", fun d _ => .ok (d.withOrigin (some "elsewhere"))⟩,
    .of "b" ⟨"refuse", fun d _ => .error (.notFound (d.origin.getD ""))⟩]
      (Document.empty.withOrigin (some "here")) = .error ⟨1, "b", .notFound "here"⟩ :=
  rfl

end MarkupRules.Schema.Pipeline
