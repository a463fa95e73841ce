import TagBalance.Scan

/-!
The log of a run. Each step that is logged gives its value together with the events it
wrote, and steps that follow one another write their events in that order.
-/
namespace TagBalance

inductive Level where
  | debug
  | warn
  deriving DecidableEq

inductive Event where
  | patternCompiled (names : Nat) (pattern : Text)
  | tagsExtracted (count : Nat)
  | balanceChecked (emitted : Nat)
  | invalidUtf8 (path : Text)
  | sourceLoaded (path : Text) (bytes : Nat)
  deriving DecidableEq

namespace Event

def level : Event → Level
  | invalidUtf8 _ => .warn
  | _ => .debug

def message : Event → Text
  | patternCompiled _ _ => "compiled tag pattern".toList
  | tagsExtracted _ => "extracted tag tokens".toList
  | balanceChecked _ => "balance check complete".toList
  | invalidUtf8 _ => "source is not valid UTF-8, decoding lossily".toList
  | sourceLoaded _ _ => "loaded source".toList

end Event

structure Logged (α : Type) where
  value : α
  events : List Event

namespace Logged

variable {α β : Type}

instance : Monad Logged where
  pure a := ⟨a, []⟩
  bind x f := ⟨(f x.value).value, x.events ++ (f x.value).events⟩

def noting (e : Event) (a : α) : Logged α := ⟨a, [e]⟩

theorem events_pure (a : α) : (pure a : Logged α).events = [] := rfl

theorem events_bind (x : Logged α) (f : α → Logged β) :
    (x >>= f).events = x.events ++ (f x.value).events := rfl

end Logged

namespace AllowList

def compile (names : List Text) : Except AllowListError (Logged AllowList) :=
  (ofNames names).map fun l => .noting (.patternCompiled l.names.length l.pattern) l

def extract (l : AllowList) (source : Text) : Logged (List Tag) :=
  .noting (.tagsExtracted (l.tags source).length) (l.tags source)

end AllowList

def checkBalance (ts : List Tag) : Logged (List Diagnostic) :=
  .noting (.balanceChecked (diagnostics ts).length) (diagnostics ts)

end TagBalance
