import FileShell.Proofs.Path.Normal
import FileShell.Proofs.Shell.Scenes

/-!
# Deeds that follow actions

A deed follows an action if it gives what the action gives, leaves the session alone, and does not
stop (`Follows`). So does unpacking into an absolute destination: what is made absolute on the way
starts from there.
-/

namespace FileShell

variable {ε ε' α β : Type}

/-! ## Running plays and deeds -/

theorem Play.run_bind (m : Play α) (f : α → Play β) (σ : Scene) :
    (m >>= f).run σ = match m.run σ with
      | (.ok a, σ') => (f a).run σ'
      | (.error r, σ') => (.error r, σ') := by
  have step (x : StateM Scene (Except Stop α)) (g : Except Stop α → StateM Scene (Except Stop β)) :
      (x >>= g) σ = g (x σ).1 (x σ).2 := rfl
  rw [ExceptT.run_bind, step]
  rcases m.run σ with ⟨_ | a, σ'⟩ <;> rfl

namespace Deed

theorem run_bind (m : Deed ε α) (f : α → Deed ε β) (σ : Scene) :
    (m >>= f).run.run σ = match m.run.run σ with
      | (.ok (.ok a), σ') => (f a).run.run σ'
      | (.ok (.error e), σ') => (.ok (.error e), σ')
      | (.error r, σ') => (.error r, σ') := by
  rw [ExceptT.run_bind, Play.run_bind]
  rcases m.run.run σ with ⟨_ | _ | a, σ'⟩ <;> rfl

theorem run_failingWith (m : Deed ε α) (e : ε') (σ : Scene) :
    (m.failingWith e).run.run σ =
      ((m.run.run σ).1.map fun x => x.mapError fun _ => e, (m.run.run σ).2) := by
  have h : (m.failingWith e).run = m.run >>= fun x => pure (x.mapError fun _ => e) := rfl
  rw [h, Play.run_bind]
  rcases m.run.run σ with ⟨_ | _, σ'⟩ <;> rfl

end Deed

/-! ## Deeds that follow actions -/

/-- The deed gives what the action gives, leaves the session alone, and does not stop. -/
def Follows (m : Deed ε α) (a : Act ε α) (w : World) : Prop :=
  ∀ session, m.run.run ⟨session, w⟩ = (.ok (a.run w).1, ⟨session, (a.run w).2⟩)

namespace Follows

variable {w : World}

theorem pure (x : α) : Follows (Pure.pure x : Deed ε α) (Pure.pure x) w := fun _ => rfl

theorem ofAct (a : Act ε α) : Follows (Deed.ofAct a) a w := fun _ => rfl

theorem bind {m : Deed ε α} {a : Act ε α} {f : α → Deed ε β} {g : α → Act ε β}
    (hm : Follows m a w) (hf : ∀ x w', a.run w = (.ok x, w') → Follows (f x) (g x) w') :
    Follows (m >>= f) (a >>= g) w := by
  intro session
  rw [Deed.run_bind, hm session, Act.run_bind]
  rcases h : a.run w with ⟨e | x, w'⟩
  · rfl
  · exact hf x w' h session

theorem liftBind {m : Deed ε α} {a : StateM World α} {f : α → Deed ε β}
    {g : α → StateM World β} (hm : Follows m (liftM a) w)
    (hf : ∀ x w', a w = (x, w') → Follows (f x) (liftM (g x)) w') :
    Follows (m >>= f) (liftM (a >>= g)) w := by
  intro session
  rw [Deed.run_bind, hm session]
  exact hf _ _ rfl session

/-- A value that does not stop is asked for at no cost. -/
theorem ofExcept {r : Except Stop α} {x : α} {f : α → Deed ε β} {a : Act ε β} (h : r = .ok x)
    (hf : Follows (f x) a w) : Follows (Deed.ofExcept r >>= f) a w := by
  subst h
  exact hf

theorem failingWith {m : Deed ε α} {a : Act ε α} (e : ε') (h : Follows m a w) :
    Follows (m.failingWith e) (a.failingWith e) w := fun session => by
  rw [Deed.run_failingWith, h session]
  rfl

end Follows

/-! ## Unpacking -/

namespace Path

theorem isAbsolute_join {p q : Path} (hp : p.isAbsolute = true) : (p.join q).isAbsolute = true := by
  unfold join
  split_ifs with hq
  · exact hq
  all_goals
    rcases p with _ | ⟨c, p⟩
    · cases hp
    · exact hp

theorem isAbsolute_foldl_join : ∀ (parts : List Text) {p : Path}, p.isAbsolute = true →
    (parts.foldl join p).isAbsolute = true
  | [], _, h => h
  | _ :: parts, _, h => isAbsolute_foldl_join parts (isAbsolute_join h)

theorem tryAbsolute_eq {p : Path} (h : p.isAbsolute = true) : tryAbsolute p = .ok p.absolute := by
  rw [tryAbsolute, if_pos h, absolute, join, if_pos h]

theorem tryBelow_eq {destination : Path} (h : destination.isAbsolute = true) (parts : List Text) :
    tryBelow destination parts = .ok (below? destination parts) := by
  unfold tryBelow below?
  split
  · rfl
  have hwithin : tryWithin destination (parts.foldl join destination) =
      .ok (isWithin destination (parts.foldl join destination)) := by
    unfold tryWithin
    rw [tryAbsolute_eq h, tryAbsolute_eq (isAbsolute_foldl_join parts h)]
    rfl
  dsimp only
  rw [hwithin]
  rcases isWithin destination (parts.foldl join destination) <;> rfl

end Path

theorem Deed.follows_unpackAll (s : Storage) (r : Reader) {destination : Path}
    (h : destination.isAbsolute = true) : ∀ (es : List Entry) (w : World),
      Follows (unpackAll s r destination es : Deed ε (List Entry))
        (liftM (Unpacking.unpackAll s r destination es)) w
  | [], _ => .pure _
  | e :: es, w => by
    refine .ofExcept (Path.tryBelow_eq h _) ?_
    have ih := follows_unpackAll s r h es
    rw [Unpacking.unpackAll]
    have htarget : (if Path.isAbsolute e.name then none else
        destination.below? (Entry.parts e.name)) = Unpacking.target? destination e.name := rfl
    rw [htarget]
    rcases Unpacking.target? destination e.name with _ | target
    · exact .liftBind (.ofAct _) fun _ w' _ => ih w'
    · refine .liftBind (.ofAct _) fun x w' _ => ?_
      rcases x with _ | ⟨⟩
      · exact .liftBind (.ofAct _) fun _ w' _ => ih w'
      · exact .liftBind (ih w') fun _ _ _ => .pure _

theorem Deed.follows_unpack (s : Storage) (archive : Path) {destination : Path}
    (h : destination.isAbsolute = true) (w : World) :
    Follows (unpack s archive destination) (FileShell.unpack s archive destination) w :=
  .bind (.ofAct _) fun r w' _ => follows_unpackAll s r h _ w'

end FileShell
