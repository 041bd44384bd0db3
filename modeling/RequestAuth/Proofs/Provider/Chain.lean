import RequestAuth.Proofs.Ensures
import RequestAuth.Provider.User

/-!
# Chains within chains

The members of a chain are providers, or chains in turn (`Provider.Members`). However they are
grouped, the chain is the same routine as the chain of its leaves (`Provider.chain_providers`).

A load of a chain asks the leaves one after the other, each when and in the world in which the one
before it ended, until one has a credential (`Provider.Load`). So do any number of loads, where each
leaf may answer something else whenever it is asked (`Provider.loads_nested_chain`). Which leaves
are asked is noted by `Provider.recorded`, which changes nothing else.
-/

namespace RequestAuth

/-- A state, and the names of the providers that have been asked, in order. -/
structure Recorded (ι σ : Type) where
  /-- The state. -/
  state : σ
  /-- Who has been asked. -/
  calls : List ι

namespace Provider

open Routine

variable {ι σ : Type} {source : ι → Provider σ} {names calls : List ι}
  {now later : Nat} {world after : World σ}

/-- What a provider answers. -/
abbrev Answer := Except Error (Option Credential)

/-- The answer has no credential: there is none, or the provider failed. -/
def IsMiss (answer : Answer) : Prop :=
  ∀ credential, answer ≠ .ok (some credential)

/-! ## Members -/

/-- The members of a chain, in order: providers, by their names, and chains. -/
inductive Members (ι : Type) where
  /-- There is no member. -/
  | nil
  /-- A provider is the first member. -/
  | provider (name : ι) (rest : Members ι)
  /-- A chain is the first member. -/
  | chain (members rest : Members ι)

namespace Members

/-- The names of the providers in the members and in all chains within them, in order. -/
def leaves : Members ι → List ι
  | nil => []
  | provider name rest => name :: rest.leaves
  | chain members rest => members.leaves ++ rest.leaves

/-- The members as providers. -/
def providers (source : ι → Provider σ) : Members ι → List (Provider σ)
  | nil => []
  | provider name rest => source name :: rest.providers source
  | chain members rest => Provider.chain (members.providers source) :: rest.providers source

end Members

/-- Goes on with another provider if there is no credential. -/
def orElse (rest : Provider σ) : Answer → Provider σ
  | .ok (some credential) => .done (.ok (some credential))
  | _ => rest

theorem orElse_of_isMiss {answer : Answer} (h : IsMiss answer) (rest : Provider σ) :
    orElse rest answer = rest := by
  match answer with
  | .ok (some credential) => exact absurd rfl (h credential)
  | .ok none => rfl
  | .error e => rfl

theorem chain_cons (provider : Provider σ) (providers : List (Provider σ)) :
    chain (provider :: providers) = provider.bind (orElse (chain providers)) := rfl

/-- A chain goes on where another one ends without a credential. -/
theorem chain_append (providers more : List (Provider σ)) :
    chain (providers ++ more) = (chain providers).bind (orElse (chain more)) := by
  induction providers with
  | nil => rfl
  | cons provider providers ih =>
    have inner : orElse (chain (providers ++ more)) =
        fun answer => (orElse (chain providers) answer).bind (orElse (chain more)) := by
      funext answer
      match answer with
      | .ok (some credential) => rfl
      | .ok none => exact ih
      | .error e => exact ih
    rw [List.cons_append, chain_cons, chain_cons, Routine.bind_assoc, inner]

/-- A chain of members is the chain of their leaves. -/
theorem chain_providers (source : ι → Provider σ) (members : Members ι) :
    chain (members.providers source) = chain (members.leaves.map source) := by
  induction members with
  | nil => rfl
  | provider name rest ih =>
    rw [Members.providers, Members.leaves, List.map_cons, chain_cons, chain_cons, ih]
  | chain members rest ihm ih =>
    rw [Members.providers, Members.leaves, List.map_append, chain_cons, chain_append, ihm, ih]

/-- Of providers that only read the context the first counts that finds a credential. -/
theorem run_chain_ofContext (finds : List (Context → Answer)) (now : Nat) (world : World σ) :
    (chain (finds.map ofContext)).run now world =
      (.finished (.ok (finds.findSome? fun find => (find world.context).toOption.join)), world) := by
  induction finds with
  | nil => rfl
  | cons find finds ih =>
    have asked : (chain ((find :: finds).map ofContext)).run now world =
        (orElse (chain (finds.map ofContext)) (find world.context)).run now world := rfl
    rw [asked, List.findSome?_cons]
    match find world.context with
    | .ok (some credential) => rfl
    | .ok none => exact ih
    | .error e => exact ih

/-! ## One load -/

/-- Providers are asked one after the other, the first at `now` in `world`, each next one when and
in the world in which the one before ended. -/
inductive Asked (source : ι → Provider σ) :
    (now : Nat) → (world : World σ) → List ι → List Answer → Nat → World σ → Prop
  | nil (now : Nat) (world : World σ) : Asked source now world [] [] now world
  | cons {now later : Nat} {world after : World σ} {names : List ι} {answers : List Answer}
    (name : ι)
    (rest : Asked source ((source name).ending now world) ((source name).complete now world).2
      names answers later after) :
    Asked source now world (name :: names) (((source name).complete now world).1 :: answers)
      later after

/-- A load of the providers of the given names, begun at `now` in `world`: what it answers, who is
asked, and when and in which world it ends. -/
inductive Load (source : ι → Provider σ) (names : List ι) (now : Nat) (world : World σ) :
    Answer → List ι → Nat → World σ → Prop
  /-- All before a provider are asked without success, and none after it. -/
  | found {asked skipped : List ι} {name : ι} {misses : List Answer} {credential : Credential}
    {due : Nat} {between after : World σ} (split : names = asked ++ name :: skipped)
    (before : Asked source now world asked misses due between)
    (vain : ∀ answer ∈ misses, IsMiss answer)
    (found : (source name).complete due between = (.ok (some credential), after)) :
    Load source names now world (.ok (some credential)) (asked ++ [name])
      ((source name).ending due between) after
  /-- All are asked without success. -/
  | nothing {misses : List Answer} {later : Nat} {after : World σ}
    (asked : Asked source now world names misses later after)
    (vain : ∀ answer ∈ misses, IsMiss answer) :
    Load source names now world (.ok none) names later after

/-- Before the providers of a load another one may be asked in vain. -/
theorem Load.cons {name : ι} {answer : Answer}
    (miss : IsMiss ((source name).complete now world).1)
    (h : Load source names ((source name).ending now world) ((source name).complete now world).2
      answer calls later after) :
    Load source (name :: names) now world answer (name :: calls) later after := by
  cases h with
  | found split before vain found =>
    exact .found (congrArg (name :: ·) split) (before.cons name)
      (List.forall_mem_cons.2 ⟨miss, vain⟩) found
  | nothing asked vain => exact .nothing (asked.cons name) (List.forall_mem_cons.2 ⟨miss, vain⟩)

/-! ## Who is asked -/

/-- The world in which the given providers have been asked. -/
def recording (calls : List ι) (world : World σ) : World (Recorded ι σ) :=
  ⟨world.context, world.outside, calls⟩

/-- The world without what is noted. -/
def unrecorded (world : World (Recorded ι σ)) : World σ :=
  ⟨world.context, world.outside.state⟩

/-- What is noted, in another world. -/
def replaced (world : World σ) (noted : World (Recorded ι σ)) : World (Recorded ι σ) :=
  recording noted.outside.calls world

/-- The provider of a name, noted each time when it is asked. -/
def recorded (source : ι → Provider σ) (name : ι) : Provider (Recorded ι σ) :=
  .act (fun world => recording (world.outside.calls ++ [name]) (unrecorded world)) fun _ =>
    (source name).onPart unrecorded replaced

theorem unrecorded_replaced (world : World σ) (noted : World (Recorded ι σ)) :
    unrecorded (replaced world noted) = world := rfl

theorem complete_recorded (source : ι → Provider σ) (name : ι) (now : Nat) (past : List ι)
    (world : World σ) : (recorded source name).complete now (recording past world) =
      (((source name).complete now world).1,
        recording (past ++ [name]) ((source name).complete now world).2) :=
  complete_onPart_eq unrecorded_replaced (fun _ => rfl) (fun _ _ _ => rfl) (source name) now
    (recording (past ++ [name]) world)

theorem ending_recorded (source : ι → Provider σ) (name : ι) (now : Nat) (past : List ι)
    (world : World σ) : (recorded source name).ending now (recording past world) =
      (source name).ending now world :=
  ending_onPart unrecorded_replaced (source name) now (recording (past ++ [name]) world)

/-- Where a routine gets to that was begun at `now` in `world`, and the calls that are noted if it
is carried out with providers that note them. -/
structure GetsTo {α : Type} (plain : Routine (World σ) α) (noting : Routine (World (Recorded ι σ)) α)
    (now : Nat) (world : World σ) (result : α) (calls : List ι) (later : Nat) (after : World σ) :
    Prop where
  /-- The result, and the world at the end. -/
  complete : plain.complete now world = (result, after)
  /-- The time at the end. -/
  ending : plain.ending now world = later
  /-- The calls are noted after those of the past, and all else is the same. -/
  noted : ∀ past, noting.complete now (recording past world) =
    (result, recording (past ++ calls) after)
  /-- It takes the same time. -/
  noted_ending : ∀ past, noting.ending now (recording past world) = later

theorem GetsTo.done {α : Type} (a : α) (now : Nat) (world : World σ) :
    GetsTo (ι := ι) (.done a) (.done a) now world a [] now world where
  complete := rfl
  ending := rfl
  noted past := by rw [List.append_nil]; rfl
  noted_ending _ := rfl

theorem GetsTo.bind {α β : Type} {plain : Routine (World σ) α}
    {noting : Routine (World (Recorded ι σ)) α} {f : α → Routine (World σ) β}
    {g : α → Routine (World (Recorded ι σ)) β} {a : α} {b : β} {calls' : List ι} {due : Nat}
    {between : World σ} (h : GetsTo plain noting now world a calls due between)
    (rest : GetsTo (f a) (g a) due between b calls' later after) :
    GetsTo (plain.bind f) (noting.bind g) now world b (calls ++ calls') later after where
  complete := by rw [complete_bind, h.complete, h.ending, rest.complete]
  ending := by rw [ending_bind, h.complete, h.ending, rest.ending]
  noted past := by
    rw [complete_bind, h.noted, h.noted_ending, rest.noted, List.append_assoc]
  noted_ending past := by rw [ending_bind, h.noted, h.noted_ending, rest.noted_ending]

theorem getsTo_recorded (source : ι → Provider σ) (name : ι) (now : Nat) (world : World σ) :
    GetsTo (source name) (recorded source name) now world ((source name).complete now world).1 [name]
      ((source name).ending now world) ((source name).complete now world).2 where
  complete := rfl
  ending := rfl
  noted past := complete_recorded source name now past world
  noted_ending past := ending_recorded source name now past world

/-- The chain of the providers of some names carries out a load of them. -/
theorem exists_load (source : ι → Provider σ) (names : List ι) (now : Nat) (world : World σ) :
    ∃ answer calls later after, Load source names now world answer calls later after ∧
      GetsTo (chain (names.map source)) (chain (names.map (recorded source))) now world answer calls
        later after := by
  induction names generalizing now world with
  | nil => exact ⟨_, _, _, _, .nothing (.nil now world) (by simp), .done _ now world⟩
  | cons name names ih =>
    have first := getsTo_recorded source name now world
    rw [List.map_cons, List.map_cons, chain_cons, chain_cons]
    -- after a miss this name comes before the load of the others, else it ends the load
    by_cases miss : IsMiss ((source name).complete now world).1
    · obtain ⟨answer, calls, later, after, load, gets⟩ :=
        ih ((source name).ending now world) ((source name).complete now world).2
      refine ⟨answer, name :: calls, later, after, load.cons miss, first.bind ?_⟩
      rw [orElse_of_isMiss miss, orElse_of_isMiss miss]
      exact gets
    · obtain ⟨credential, found⟩ := not_forall_not.1 miss
      have asked : (source name).complete now world =
          (.ok (some credential), ((source name).complete now world).2) := Prod.ext found rfl
      refine ⟨_, _, _, _, .found rfl (.nil now world) (by simp) asked, ?_⟩
      rw [found] at first
      have ended := GetsTo.done (σ := σ) (ι := ι) (Except.ok (some credential) : Answer)
        ((source name).ending now world) ((source name).complete now world).2
      exact first.bind ended

/-! ## Many loads -/

/-- Asks a provider so many times. -/
def loads (provider : Provider σ) : Nat → Routine (World σ) (List Answer)
  | 0 => .done []
  | n + 1 => provider.bind fun answer =>
    (loads provider n).bind fun answers => .done (answer :: answers)

/-- So many loads one after the other, each begun when and in the world in which the one before
ended. -/
inductive Loads (source : ι → Provider σ) (names : List ι) :
    Nat → (now : Nat) → (world : World σ) → List Answer → List ι → Nat → World σ → Prop
  | zero (now : Nat) (world : World σ) : Loads source names 0 now world [] [] now world
  | succ {n now due later : Nat} {world between after : World σ} {answer : Answer}
    {answers : List Answer} {calls calls' : List ι}
    (load : Load source names now world answer calls due between)
    (rest : Loads source names n due between answers calls' later after) :
    Loads source names (n + 1) now world (answer :: answers) (calls ++ calls') later after

theorem exists_loads (source : ι → Provider σ) (names : List ι) (n now : Nat) (world : World σ) :
    ∃ answers calls later after, Loads source names n now world answers calls later after ∧
      GetsTo (loads (chain (names.map source)) n) (loads (chain (names.map (recorded source))) n)
        now world answers calls later after := by
  induction n generalizing now world with
  | zero => exact ⟨_, _, _, _, .zero now world, .done _ now world⟩
  | succ n ih =>
    obtain ⟨answer, calls, due, between, load, gets⟩ := exists_load source names now world
    obtain ⟨answers, calls', later, after, rest, gets'⟩ := ih due between
    refine ⟨_, _, _, _, .succ load rest, gets.bind ?_⟩
    have both := gets'.bind (f := fun answers => .done (answer :: answers))
      (g := fun answers => .done (answer :: answers)) (.done _ later after)
    rwa [List.append_nil] at both

/-- However the members of a chain are grouped, loads of it are loads of their leaves, with the same
answers and the same calls; the usual chain is that of the environment and the configuration
file. -/
theorem loads_nested_chain :
    (∀ (source : ι → Provider σ) (members : Members ι),
      chain (members.providers source) = chain (members.leaves.map source) ∧
      ∀ n now world, ∃ answers calls later after,
        Loads source members.leaves n now world answers calls later after ∧
        GetsTo (loads (chain (members.providers source)) n)
          (loads (chain (members.providers (recorded source))) n)
          now world answers calls later after ∧
        GetsTo (loads (chain (members.leaves.map source)) n)
          (loads (chain (members.leaves.map (recorded source))) n)
          now world answers calls later after) ∧
    ∀ file : ConfigFile, (standard file : Provider σ) = chain [environment, configFile file] ∧
      ∀ now (world : World σ), (standard file).run now world =
        (.finished (.ok ([findInEnvironment, file.find].findSome? fun find =>
          (find world.context).toOption.join)), world) := by
  refine ⟨fun source members => ⟨chain_providers source members, fun n now world => ?_⟩,
    fun file => ⟨rfl, fun now world => ?_⟩⟩
  · obtain ⟨answers, calls, later, after, history, gets⟩ :=
      exists_loads source members.leaves n now world
    refine ⟨answers, calls, later, after, history, ?_, gets⟩
    rw [chain_providers, chain_providers]
    exact gets
  · exact run_chain_ofContext [findInEnvironment, file.find] now world

end Provider

end RequestAuth
