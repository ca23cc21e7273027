import Grove.Core.ScopeTree
import Grove.Lib.Run

/-! # Tweens

`TweenEngine` of `packages/core/src/loop/tweens.ts`.  A tween writes its property through a setter that may be
creator code, so an `advance` under way is a walk over the table that the setter can change: `Stepping` is that
walk while a setter runs, and `Playhead.step` is one call, from outside or from the setter.

A walk over a `Map` comes to the entries present in the order they were added.  No id is added twice, so what is
left of it are the entries not yet seen.  The arithmetic of `packages/math` is given (`Arithmetic`); `exact` is its
own over the rationals. -/

namespace Grove

inductive Easing where
  | linear
  | ease
  | easeIn
  | easeOut
  | bounce
deriving DecidableEq

def easeOutBounce (t : ℚ) : ℚ :=
  if t < 1 / 2.75 then 7.5625 * t * t
  else if t < 2 / 2.75 then
    let t2 := t - 1.5 / 2.75
    7.5625 * t2 * t2 + 0.75
  else if t < 2.5 / 2.75 then
    let t2 := t - 2.25 / 2.75
    7.5625 * t2 * t2 + 0.9375
  else
    let t2 := t - 2.625 / 2.75
    7.5625 * t2 * t2 + 0.984375

def ease (t : ℚ) : Easing → ℚ
  | .linear => t
  | .ease => t * t * (3 - 2 * t)
  | .easeIn => t * t * t
  | .easeOut => 1 - (1 - t) * (1 - t) * (1 - t)
  | .bounce => easeOutBounce t

def lerp (a b t : ℚ) : ℚ := a + (b - a) * t

/-- How values are eased and mixed. -/
structure Arithmetic (V : Type) where
  ease : ℚ → Easing → V
  lerp : V → V → V → V

def Arithmetic.exact : Arithmetic ℚ := ⟨Grove.ease, Grove.lerp⟩

structure Tween (V : Type) where
  id : ℕ
  hostScopeId : ScopeId
  /-- The key of the target. -/
  key : String
  prop : String
  /-- `from`: what the target's getter answered when it started. -/
  fromValue : V
  toValue : V
  elapsed : ℕ
  durationTicks : ℕ
  easing : Easing
  cancelled : Bool

def propKey (key prop : String) : String := key ++ ":" ++ prop

namespace Tween

variable {V : Type} (tween : Tween V)

def slot : String := propKey tween.key tween.prop

/-- `t`, from 0 to 1. -/
def progress : ℚ := min 1 ((tween.elapsed : ℚ) / tween.durationTicks)

/-- What it writes. -/
def value (A : Arithmetic V) : V := A.lerp tween.fromValue tween.toValue (A.ease tween.progress tween.easing)

end Tween

structure TweenEngine (V : Type) where
  tweens : OrderedMap ℕ (Tween V)
  byProp : OrderedMap String ℕ
  nextId : ℕ
  simRate : ℚ
  /-- The tweens whose promise was resolved, each time it was. -/
  resolved : List ℕ

namespace TweenEngine

variable {V : Type} (e : TweenEngine V)

/-- A cancelled tween leaves the table at once, so its flag is not seen there. -/
def cancel (id : ℕ) : TweenEngine V :=
  match e.tweens.get id with
  | none => e
  | some tween =>
    { e with
      tweens := e.tweens.delete id
      byProp := if e.byProp.get tween.slot = some id then e.byProp.delete tween.slot else e.byProp
      resolved := e.resolved ++ [id] }

def cancelScope (hostScopeId : ScopeId) : TweenEngine V :=
  if hostScopeId = noScope then e
  else
    ((e.tweens.entries.filter (fun entry => entry.2.hostScopeId = hostScopeId)).map Prod.fst).foldl
      (fun e id => e.cancel id) e

def durationTicks (seconds : ℚ) : ℕ := max 1 ⌊seconds * e.simRate + 1 / 2⌋.toNat

/-- `start` of a finite duration; the getter answers `value`. -/
def start (key prop : String) (value toValue : V) (seconds : ℚ) (hostScopeId : ScopeId) (easing : Easing) :
    TweenEngine V :=
  let e' := match e.byProp.get (propKey key prop) with
    | none => e
    | some existing => e.cancel existing
  { e' with
    tweens := e'.tweens.set e'.nextId
      ⟨e'.nextId, hostScopeId, key, prop, value, toValue, 0, e'.durationTicks seconds, easing, false⟩
    byProp := e'.byProp.set (propKey key prop) e'.nextId
    nextId := e'.nextId + 1 }

/-- What `advance` does with a tween that has come to its end. -/
def finish (tween : Tween V) : TweenEngine V :=
  { e with
    tweens := e.tweens.delete tween.id
    byProp := if e.byProp.get tween.slot = some tween.id then e.byProp.delete tween.slot else e.byProp
    resolved := e.resolved ++ [tween.id] }

end TweenEngine

/-! ### Runs -/

/-- A walk while the setter of one of its tweens runs. -/
structure Stepping (V : Type) where
  horizon : ℕ
  seen : List ℕ
  tween : Tween V

/-- An engine, and the advance under way on it. -/
structure Playhead (V : Type) where
  engine : TweenEngine V
  walk : Option (Stepping V)

namespace Playhead

variable {V : Type}

inductive Event (V : Type) where
  | start (key prop : String) (value toValue : V) (seconds : ℚ) (hostScopeId : ScopeId) (easing : Easing)
  | cancel (id : ℕ)
  | cancelScope (hostScopeId : ScopeId)
  | advance
  /-- The setter that is running returns, or throws under its guard. -/
  | returned

/-- The walk goes on to the next tween that is to be stepped, over the entries of the table. -/
def next (e : TweenEngine V) (horizon : ℕ) : List (ℕ × Tween V) → List ℕ → Playhead V
  | [], _ => ⟨e, none⟩
  | (id, tween) :: rest, seen =>
    if id ∈ seen then next e horizon rest seen
    else if tween.cancelled ∨ horizon ≤ tween.id then next e horizon rest (seen ++ [id])
    else
      let stepped := { tween with elapsed := tween.elapsed + 1 }
      ⟨{ e with tweens := e.tweens.set id stepped }, some ⟨horizon, seen ++ [id], stepped⟩⟩

def step (p : Playhead V) : Event V → Playhead V
  | .start key prop value toValue seconds hostScopeId easing =>
    { p with engine := p.engine.start key prop value toValue seconds hostScopeId easing }
  | .cancel id => { p with engine := p.engine.cancel id }
  | .cancelScope hostScopeId => { p with engine := p.engine.cancelScope hostScopeId }
  | .advance =>
    if p.engine.tweens.size = 0 then p
    else next p.engine p.engine.nextId p.engine.tweens.entries []
  | .returned =>
    match p.walk with
    | none => p
    | some w =>
      let e := if 1 ≤ w.tween.progress then p.engine.finish w.tween else p.engine
      next e w.horizon e.tweens.entries w.seen

end Playhead
end Grove
