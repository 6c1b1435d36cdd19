import FileShell.Proofs.Shell.Contained
import FileShell.Proofs.Shell.Whereabouts

/-!
# Closing sessions

A session is closed by the command `exit` and by nothing else. Its arguments do not matter, nor
does a redirection, unless that has no target: then the command is not run. So a line that is run
in an active session leaves it active exactly if it does not close it (`active_runLine`).
-/

namespace FileShell

/-- Whether a line runs `exit`. -/
def CommandLine.closes (line : Text) : Bool :=
  match Command.parse? (split line).command with
  | none => false
  | some c => c.name == "exit".toList &&
      match (split line).redirection with
      | none => true
      | some r => !r.target.isEmpty

namespace Handler

variable (s : Storage)

theorem stays_unzip : (unzip s).Stays := by
  intro args session
  unfold unzip
  dsimp only
  rcases unzipArgs args with u | ⟨archive, _ | d⟩
  · exact Act.does_throw _
  · refine stays_bind fun file => Act.does_ite _ (Act.does_throw _) ?_
    exact stays_bind fun _ => stays_bind fun _ => stays_return
  · refine stays_bind fun file => Act.does_ite _ (Act.does_throw _) ?_
    exact stays_bind fun _ => stays_bind fun _ => stays_bind fun _ => stays_return

/-- The command leaves no session less active than it was, nor more. -/
def KeepsActive (h : Handler) : Prop :=
  ∀ args session {w session' w'}, (h.run args session).run w = (.ok session', w') →
    session'.active = session.active

variable {s}

theorem Stays.keepsActive {h : Handler} (hstays : h.Stays) : h.KeepsActive :=
  fun args session _ _ _ hrun => congrArg Session.active ((hstays args session).gives hrun)

theorem keepsActive_cd : (cd s).KeepsActive := by
  intro args session w session' w' hrun
  obtain ⟨f, hf, hgoes⟩ := exists_run_cd s args session
  rw [hf] at hrun
  obtain ⟨q, rfl, -⟩ := hgoes _ _ (Prod.mk.inj hrun).1
  rfl

theorem eq_exit_or_keepsActive {h : Handler} (hm : h ∈ standard s) :
    h = exit ∨ h.KeepsActive := by
  simp only [standard, List.mem_cons, List.not_mem_nil, or_false] at hm
  rcases hm with rfl | rfl | rfl | rfl | rfl | rfl | rfl | rfl | rfl | rfl | rfl | rfl | rfl | rfl |
    rfl
  · exact .inr stays_pwd.keepsActive
  · exact .inr keepsActive_cd
  · exact .inr (stays_ls s).keepsActive
  · exact .inr (stays_mkdir s).keepsActive
  · exact .inr (stays_rmdir s).keepsActive
  · exact .inr (stays_touch s).keepsActive
  · exact .inr (stays_rm s).keepsActive
  · exact .inr (stays_cp s).keepsActive
  · exact .inr (stays_cpTree s).keepsActive
  · exact .inr (stays_cat s).keepsActive
  · exact .inr (stays_wc s).keepsActive
  · exact .inr stays_echo.keepsActive
  · exact .inr (stays_zip s).keepsActive
  · exact .inr (stays_unzip s).keepsActive
  · exact .inl rfl

theorem route_exit (args : List Text) :
    route (standard s) ⟨"exit".toList, args⟩ = (some exit, args) :=
  route_of_ne (by decide) args

theorem active_dispatch (s : Storage) (c : Command) (session : Session) (w : World) :
    (dispatch (standard s) c session w).1.active =
      (session.active && c.name != "exit".toList) := by
  by_cases hname : c.name = "exit".toList
  · obtain ⟨_, args⟩ := c
    obtain rfl := hname
    rw [run_dispatch (route_exit args)]
    exact (Bool.and_false _).symm
  · rw [bne_iff_ne.2 hname, Bool.and_true]
    rcases hr : route (standard s) c with ⟨_ | h, args⟩
    · unfold dispatch attempt
      rw [hr]
      rfl
    · rw [run_dispatch hr]
      obtain ⟨hm, hn⟩ := mem_of_route hr
      rcases eq_exit_or_keepsActive hm with rfl | hkeeps
      · rcases hn with hn | hn
        · exact absurd hn.symm hname
        · exact absurd hn (show ¬ "exit".toList = "cp -r".toList by decide)
      · rcases hrun : (h.run args session).run w with ⟨_ | session', w'⟩
        · rfl
        · exact hkeeps args session hrun

end Handler

/-- A line leaves an active session active unless it runs `exit`, and opens no closed one. -/
theorem active_runLine (s : Storage) (line : Text) (session : Session) (w : World) :
    (runLine s line session w).1.active = (session.active && !CommandLine.closes line) := by
  unfold runLine execute CommandLine.closes
  dsimp only
  rcases Command.parse? (CommandLine.split line).command with _ | c
  · exact (Bool.and_true _).symm
  have hactive (v : World) :
      (Handler.attempt (Handler.standard s) c session v).1.1.active = _ :=
    Handler.active_dispatch s c session v
  rcases (CommandLine.split line).redirection with _ | ⟨m, p⟩ <;> dsimp only <;> rw [run_bind]
  · rw [Bool.and_true]
    exact hactive w
  · rcases eq_or_ne p [] with rfl | hp
    · rw [executeRedirected_nil, run_pure]
      simp
    · have he : p.isEmpty = false := by simpa using hp
      rw [run_pure, fst_executeRedirected hp, hactive, he, Bool.not_false, Bool.and_true, bne]

end FileShell
