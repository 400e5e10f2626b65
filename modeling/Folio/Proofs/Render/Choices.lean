import Folio.Render.Builder
import Mathlib.Data.List.Basic
import Mathlib.Data.List.Induction
import Mathlib.Data.List.TakeWhile

/-! # What comes of choices

A builder keeps three things of the handlers and registries it was given: whether it has a registry
that was handed over, the registry as it stands, and the names that came too late. All three depend
on where the first registry stands. Handlers behind it are told apart from those before it: the late
ones fail the build, the early ones go with the registry they were stored in.
-/

namespace Folio

namespace Choice

def handler? : Choice → Option (String × Handler)
  | .handler name action => some (name, action)
  | _ => none

def registry? : Choice → Option Registry
  | .registry table => some table
  | _ => none

end Choice

namespace Builder

def handlers (choices : List Choice) : List (String × Handler) :=
  choices.filterMap Choice.handler?

def registries (choices : List Choice) : List Registry := choices.filterMap Choice.registry?

/-- The handlers that are chosen when a registry has been handed over. -/
def late (choices : List Choice) : List (String × Handler) :=
  handlers (choices.dropWhile fun c => c.registry?.isNone)

def settledRegistry (choices : List Choice) : Registry :=
  (registries choices).getLast?.getD
    ((handlers choices).foldl (fun registry h => registry.insert h.1 h.2) .standard)

variable {choices : List Choice}

theorem settledRegistry_of_last {table : Registry}
    (last : (registries choices).getLast? = some table) : settledRegistry choices = table := by
  rw [settledRegistry, last]
  rfl

theorem settledRegistry_of_none (none : registries choices = []) :
    settledRegistry choices =
      (handlers choices).foldl (fun registry h => registry.insert h.1 h.2) .standard := by
  rw [settledRegistry, none]
  rfl

theorem handlers_concat (choices : List Choice) (c : Choice) :
    handlers (choices ++ [c]) = handlers choices ++ c.handler?.toList := by
  rw [handlers, List.filterMap_append, handlers]
  cases c <;> rfl

theorem registries_concat (choices : List Choice) (c : Choice) :
    registries (choices ++ [c]) = registries choices ++ c.registry?.toList := by
  rw [registries, List.filterMap_append, registries]
  cases c <;> rfl

theorem registries_eq_nil_iff :
    registries choices = [] ↔ ∀ c ∈ choices, c.registry?.isNone = true := by
  rw [registries, List.filterMap_eq_nil_iff]
  simp only [Option.isNone_iff_eq_none]

theorem late_concat (choices : List Choice) (c : Choice) :
    late (choices ++ [c]) =
      late choices ++ if registries choices = [] then [] else c.handler?.toList := by
  by_cases none : registries choices = []
  · have early := registries_eq_nil_iff.1 none
    have before : late choices = [] := by
      rw [late, List.dropWhile_eq_nil_iff.2 early]
      rfl
    rw [if_pos none, before, late, List.dropWhile_append_of_pos early]
    -- A handler left after the others is not behind a registry, and a registry is no handler.
    cases c <;> rfl
  · have stops : (choices.dropWhile fun c => c.registry?.isNone) ≠ [] := by
      intro all
      rw [List.dropWhile_eq_nil_iff] at all
      exact none (registries_eq_nil_iff.2 all)
    rw [if_neg none, late, List.dropWhile_append, if_neg (mt List.isEmpty_iff.1 stops),
      handlers_concat, late]

structure Kept (choices : List Choice) (b : Builder) : Prop where
  complete : b.complete = true ↔ registries choices ≠ []
  rejected : b.rejected = (late choices).map Prod.fst
  registry : b.registry = settledRegistry choices

variable {b : Builder}

theorem Kept.other {next : Builder} {c : Choice} (kept : Kept choices b)
    (handler : c.handler? = none) (registry : c.registry? = none)
    (same : next.complete = b.complete ∧ next.rejected = b.rejected ∧ next.registry = b.registry) :
    Kept (choices ++ [c]) next := by
  obtain ⟨complete, rejected, stands⟩ := same
  have handed : registries (choices ++ [c]) = registries choices := by
    rw [registries_concat, registry]
    exact List.append_nil _
  constructor
  · rw [complete, handed]
    exact kept.complete
  · rw [rejected, kept.rejected, late_concat, handler]
    simp
  · rw [stands, kept.registry, settledRegistry, settledRegistry, handed, handlers_concat, handler,
      Option.toList_none, List.append_nil]

theorem kept_choose (kept : Kept choices b) (c : Choice) :
    Kept (choices ++ [c]) (b.choose c) := by
  cases c with
  | registry table =>
    constructor
    · simp [choose, registries_concat, Choice.registry?]
    · rw [late_concat, choose, kept.rejected]
      simp [Choice.handler?]
    · symm
      apply settledRegistry_of_last
      rw [registries_concat]
      exact List.getLast?_concat
  | handler name action =>
    have handed : registries (choices ++ [.handler name action]) = registries choices := by
      rw [registries_concat]
      exact List.append_nil _
    rw [choose]
    by_cases complete : b.complete = true
    · have given := kept.complete.1 complete
      obtain ⟨table, last⟩ : ∃ table, (registries choices).getLast? = some table :=
        ⟨_, List.getLast?_eq_some_getLast given⟩
      rw [if_pos complete]
      constructor
      · rw [handed]
        exact kept.complete
      · rw [late_concat, if_neg given, kept.rejected, List.map_append]
        rfl
      · rw [settledRegistry_of_last (handed.symm ▸ last), kept.registry,
          settledRegistry_of_last last]
    · have given := not_not.1 (mt kept.complete.2 complete)
      rw [if_neg complete]
      constructor
      · rw [handed]
        exact kept.complete
      · rw [late_concat, if_pos given, List.append_nil]
        exact kept.rejected
      · rw [settledRegistry_of_none (handed.trans given), handlers_concat, Choice.handler?,
          Option.toList_some, List.foldl_concat, kept.registry, settledRegistry_of_none given]
  | sessions | parse | order | timeout | capacity | config =>
    exact kept.other rfl rfl ⟨rfl, rfl, rfl⟩

theorem kept_ofChoices (choices : List Choice) : Kept choices (ofChoices choices) := by
  induction choices using List.reverseRecOn with
  | nil => exact ⟨by simp [ofChoices, registries], rfl, rfl⟩
  | append_singleton choices c ih =>
    have step : ofChoices (choices ++ [c]) = (ofChoices choices).choose c := List.foldl_concat ..
    rw [step]
    exact kept_choose ih c

theorem build_of_rejected (rejected : b.rejected ≠ []) :
    b.build = .error (.rejectedHandlers b.rejected) := by
  have some : (!b.rejected.isEmpty) = true := by simpa using rejected
  rw [build, check, if_pos some]
  rfl

theorem of_build {renderer : Renderer} {records : List Record}
    (built : b.build = .ok (renderer, records)) :
    b.rejected = [] ∧ renderer.registry = b.registry := by
  by_cases rejected : b.rejected = []
  · refine ⟨rejected, ?_⟩
    rw [build] at built
    cases checked : b.check with
    | error e =>
      rw [checked] at built
      cases built
    | ok _ =>
      rw [checked] at built
      cases built
      rfl
  · rw [build_of_rejected rejected] at built
    cases built

/-- Handlers that come behind a registry fail the build. In a renderer that was built each name has
the last handler that was chosen for it, unless a registry was handed over: then the last of those
is all there is. -/
theorem chosen_handlers_registered (choices : List Choice) :
    (late choices ≠ [] →
      (ofChoices choices).build = .error (.rejectedHandlers ((late choices).map Prod.fst))) ∧
    ∀ renderer records, (ofChoices choices).build = .ok (renderer, records) →
      late choices = [] ∧
      (registries choices = [] → ∀ name, renderer.registry.get? name =
        ((handlers choices).reverse.lookup name).or (Registry.standard.get? name)) ∧
      ∀ registry, (registries choices).getLast? = some registry →
        renderer.registry = registry := by
  have kept := kept_ofChoices choices
  constructor
  · intro late
    have rejected : (ofChoices choices).rejected ≠ [] := by
      rw [kept.rejected]
      exact mt List.map_eq_nil_iff.1 late
    rw [build_of_rejected rejected, kept.rejected]
  · intro renderer records built
    obtain ⟨rejected, registry⟩ := of_build built
    rw [kept.rejected] at rejected
    rw [registry, kept.registry]
    refine ⟨List.map_eq_nil_iff.1 rejected, fun none name => ?_, fun table last => ?_⟩
    · rw [settledRegistry_of_none none]
      exact Table.get?_foldl_insert ..
    · exact settledRegistry_of_last last

theorem later_handler_registered :
    let choices : List Choice :=
      [.handler "rule" Handler.page, .sessions, .handler "rule" Handler.text, .order .grouped]
    ∃ renderer records, (ofChoices choices).build = .ok (renderer, records) ∧
      renderer.registry.get? "rule" = some Handler.text := by
  intro choices
  refine ⟨_, _, rfl, ?_⟩
  obtain ⟨_, kept⟩ := chosen_handlers_registered choices
  obtain ⟨_, own, _⟩ := kept _ _ rfl
  exact own rfl "rule"

/-- A handler that is chosen before a registry is handed over is lost, and the build succeeds. -/
theorem early_handler_lost :
    let choices : List Choice := [.handler "rule" Handler.page, .registry .standard]
    (handlers choices).reverse.lookup "rule" = some Handler.page ∧
      ∃ renderer records, (ofChoices choices).build = .ok (renderer, records) ∧
        renderer.registry.get? "rule" = none :=
  ⟨rfl, _, _, rfl, rfl⟩

end Builder

end Folio
