import FileShell.Proofs.Shell.Effects

/-!
# Commands that do not stop

Only `cp -r` and `zip` ask whether two paths are the same, and only they go into directories. Any
other command accounts for all of its failures (`tree_or_zip_or_ends`): either it throws them itself
or it puts an error of its own in the place of what the storage gives.
-/

namespace FileShell

variable {α β ε : Type} {s : Storage} {w : World}

/-- No failure of the action is a stop. -/
def Act.Ends (m : Act CommandError α) (w : World) : Prop :=
  ∀ e w', m.run w = (.error e, w') → e.stop? = none

namespace Act.Ends

theorem pure (a : α) : (Pure.pure a : Act CommandError α).Ends w := fun _ _ h => by cases h

theorem throw {e : CommandError} (h : e.stop? = none) : (throw e : Act CommandError α).Ends w :=
  fun _ _ hrun => by
    obtain rfl := Except.error.inj (Prod.mk.inj hrun).1
    exact h

theorem lift (m : StateM World α) : (liftM m : Act CommandError α).Ends w :=
  fun _ _ h => by cases h

theorem adapt {m : Act ε α} {f : ε → CommandError} (h : ∀ e, (m.run w).1 = .error e →
    (f e).stop? = none) : (show Act CommandError α from m.adapt f).Ends w := fun _ _ hrun => by
  rw [Act.run_adapt] at hrun
  rcases hm : m.run w with ⟨e | a, w'⟩
  · rw [hm] at hrun
    obtain rfl := Except.error.inj (Prod.mk.inj hrun).1
    exact h e (congrArg Prod.fst hm)
  · rw [hm] at hrun
    cases (Prod.mk.inj hrun).1

theorem failingWith {m : Act ε α} {e : CommandError} (h : e.stop? = none) :
    (m.failingWith e).Ends w := adapt fun _ _ => h

theorem bind {m : Act CommandError α} {f : α → Act CommandError β} (hm : m.Ends w)
    (hf : ∀ a w', m.run w = (.ok a, w') → (f a).Ends w') : (m >>= f).Ends w := fun e w' hrun => by
  rw [Act.run_bind] at hrun
  rcases h : m.run w with ⟨e' | a, v⟩
  · rw [h] at hrun
    obtain rfl := Except.error.inj (Prod.mk.inj hrun).1
    exact hm _ _ h
  · rw [h] at hrun
    exact hf a v h e w' hrun

theorem ite (c : Prop) [Decidable c] {m m' : Act CommandError α} (h : c → m.Ends w)
    (h' : ¬ c → m'.Ends w) : (if c then m else m').Ends w := by
  split_ifs with hc
  · exact h hc
  · exact h' hc

theorem forM {f : α → Act CommandError PUnit} (hf : ∀ a w, (f a).Ends w) :
    ∀ (l : List α) {w : World}, (l.forM f).Ends w
  | [], _ => .pure _
  | a :: l, w => .bind (hf a w) fun _ _ _ => forM hf l

end Act.Ends

namespace Handler

/-- The command accounts for all of its failures. -/
def Ends (h : Handler) : Prop := ∀ args session w, (h.run args session).Ends w

theorem ends_pwd : pwd.Ends := by
  rintro (_ | ⟨a, args⟩) session w
  · exact .bind (.lift _) fun _ _ _ => .pure _
  · exact .throw rfl

theorem ends_cd (s : Storage) : (cd s).Ends := by
  rintro (_ | ⟨p, _ | ⟨q, args⟩⟩) session w
  · exact .pure _
  · refine .ite _ (fun _ => ?_) fun _ => ?_
    · rcases session.parent? with _ | parent
      · exact .throw rfl
      · exact .pure _
    · refine .bind (.lift _) fun _ _ _ => .ite _ (fun _ => .throw rfl) fun _ => ?_
      exact .bind (.failingWith rfl) fun _ _ _ => .pure _
  · exact .throw rfl

theorem ends_ls (s : Storage) : (ls s).Ends := by
  rintro (_ | ⟨a, args⟩) session w
  · refine .bind (.failingWith rfl) fun names _ _ => ?_
    exact .bind (.forM (fun _ _ => .lift _) names) fun _ _ _ => .pure _
  · exact .throw rfl

theorem ends_mkdir (s : Storage) : (mkdir s).Ends := fun names _ _ =>
  .ite _ (fun _ => .throw rfl) fun _ =>
    .bind (.forM (fun _ _ => .lift _) names) fun _ _ _ => .pure _

theorem ends_rmdir (s : Storage) : (rmdir s).Ends := by
  rintro (_ | ⟨name, _ | ⟨b, args⟩⟩) session w
  · exact .throw rfl
  · have all (p : Path) (w : World) : (removeAllEmpty s p).Ends w :=
      .bind (.failingWith rfl) fun names _ _ => .forM (fun _ _ => .lift _) names
    have one (p : Path) (w : World) : (removeOne s p).Ends w := by
      refine .bind (.lift _) fun _ _ _ => .ite _ (fun _ => .throw rfl) fun _ => ?_
      refine .bind (.lift _) fun _ _ _ => .ite _ (fun _ => .throw rfl) fun _ => ?_
      refine .bind (.failingWith rfl) fun _ _ _ => ?_
      exact .ite _ (fun _ => .throw rfl) fun _ => .failingWith rfl
    exact .ite _ (fun _ => .bind (all _ _) fun _ _ _ => .pure _)
      fun _ => .bind (one _ _) fun _ _ _ => .pure _
  · exact .throw rfl

theorem ends_touch (s : Storage) : (touch s).Ends := by
  rintro (_ | ⟨name, _ | ⟨b, args⟩⟩) session w
  · exact .throw rfl
  · exact .bind (.failingWith rfl) fun _ _ _ => .pure _
  · exact .throw rfl

theorem ends_rm (s : Storage) : (rm s).Ends := by
  rintro (_ | ⟨name, _ | ⟨b, args⟩⟩) session w
  · exact .throw rfl
  · refine .bind (.lift _) fun _ _ _ => .ite _ (fun _ => .throw rfl) fun _ => ?_
    refine .bind (.lift _) fun _ _ _ => .ite _ (fun _ => .throw rfl) fun _ => ?_
    exact .bind (.failingWith rfl) fun _ _ _ => .pure _
  · exact .throw rfl

theorem ends_cp (s : Storage) : (cp s).Ends := by
  rintro (_ | ⟨a, _ | ⟨b, _ | ⟨c, args⟩⟩⟩) session w
  · exact .throw rfl
  · exact .throw rfl
  · refine .bind (.lift _) fun _ _ _ => .ite _ (fun _ => .throw rfl) fun _ => ?_
    exact .bind (.failingWith rfl) fun _ _ _ => .pure _
  · exact .throw rfl

theorem ends_cat (s : Storage) : (cat s).Ends := fun names _ _ =>
  .ite _ (fun _ => .throw rfl) fun _ =>
    .bind (.forM (fun _ _ => .lift _) names) fun _ _ _ => .pure _

theorem ends_wc (s : Storage) : (wc s).Ends := by
  rintro (_ | ⟨name, _ | ⟨b, args⟩⟩) session w
  · exact .throw rfl
  · refine .bind (.lift _) fun _ _ _ => .ite _ (fun _ => .throw rfl) fun _ => ?_
    refine .bind (.lift _) fun _ _ _ => .ite _ (fun _ => .throw rfl) fun _ => ?_
    exact .bind (.lift _) fun _ _ _ => .pure _
  · exact .throw rfl

theorem ends_echo : echo.Ends := fun _ _ _ => .bind (.lift _) fun _ _ _ => .pure _

theorem ends_unzip (s : Storage) : (unzip s).Ends := by
  intro args session w
  unfold unzip
  dsimp only
  rcases unzipArgs args with u | ⟨archive, destination⟩
  · exact .throw rfl
  refine .bind (.lift _) fun _ _ _ => .ite _ (fun _ => .throw rfl) fun _ => ?_
  have go (p : Path) (v : World) : (do
      let _ ← (unpack s (session.resolve archive) p).failingWith CommandError.cannotUnpack
      return session : Act CommandError Session).Ends v :=
    .bind (.failingWith rfl) fun _ _ _ => .pure _
  rcases destination with _ | d
  · exact .bind (.pure _) fun p _ _ => go p _
  · exact .bind (.failingWith rfl) fun _ _ _ => .bind (.pure _) fun p _ _ => go p _

theorem ends_exit : exit.Ends := fun _ _ _ => .bind (.lift _) fun _ _ _ => .pure _

theorem tree_or_zip_or_ends {h : Handler} (hm : h ∈ standard s) :
    h = cpTree s ∨ h = zip s ∨ h.Ends := by
  simp only [standard, List.mem_cons, List.not_mem_nil, or_false] at hm
  rcases hm with rfl | rfl | rfl | rfl | rfl | rfl | rfl | rfl | rfl | rfl | rfl | rfl | rfl | rfl |
    rfl
  · exact .inr (.inr ends_pwd)
  · exact .inr (.inr (ends_cd s))
  · exact .inr (.inr (ends_ls s))
  · exact .inr (.inr (ends_mkdir s))
  · exact .inr (.inr (ends_rmdir s))
  · exact .inr (.inr (ends_touch s))
  · exact .inr (.inr (ends_rm s))
  · exact .inr (.inr (ends_cp s))
  · exact .inl rfl
  · exact .inr (.inr (ends_cat s))
  · exact .inr (.inr (ends_wc s))
  · exact .inr (.inr ends_echo)
  · exact .inr (.inl rfl)
  · exact .inr (.inr (ends_unzip s))
  · exact .inr (.inr ends_exit)

end Handler

end FileShell
