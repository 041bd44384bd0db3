import RequestAuth.Context
import RequestAuth.Routine

/-!
# Providers of credentials

A provider is asked for a credential whenever one is needed. It reads the context, may act on the
state of whatever it asks in turn, and may take its time. Its answer is a credential, nothing if
it has none to give, or an error. `Provider.chain` asks several providers one after the other
until one has a credential; errors count as nothing there.
-/

namespace RequestAuth

/-- What providers find: the context, and the state of their collaborators. -/
structure World (σ : Type) where
  /-- Where credentials are found. -/
  context : Context
  /-- The state of collaborators. -/
  outside : σ

/-- A source of credentials. -/
abbrev Provider (σ : Type) := Routine (World σ) (Except Error (Option Credential))

namespace Provider

variable {σ : Type}

/-- A provider that only reads the context. -/
def ofContext (find : Context → Except Error (Option Credential)) : Provider σ :=
  .act id fun world => .done (find world.context)

/-- Asks providers in order for the first credential that one of them has. -/
def chain : List (Provider σ) → Provider σ
  | [] => .done (.ok none)
  | provider :: rest =>
    provider.bind fun answer => match answer with
      | .ok (some credential) => .done (.ok (some credential))
      | _ => chain rest

/-- The text shown for a chain of providers when debugging. -/
def chainDebugText (providers : List (Provider σ)) : String :=
  Text.record "ProvideCredentialChain" [("providers_count", toString providers.length)]

end Provider

end RequestAuth
