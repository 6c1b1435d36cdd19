import FileShell.Proofs.Service.Requests
import FileShell.Service.Routing

/-!
# The life of a session

Requests are answered one after another, from an empty registry on, and no id is handed out twice.
What the registry then knows can be told from what was asked and the answers alone: an id is known
if it was handed out, was not dropped since, and no line that runs `exit` was run under it
(`LifeCycle`). This is so however requests are taken in. A request does one of few things
(`Registry.Serves`), so each fact is proved for one request first and carried through a run of them
by `Tells.step` (`life_cycle`).
-/

namespace FileShell

/-- What a request asks for, its answer, and the disk afterwards. -/
structure Exchange where
  ask : Option Ask
  response : Response
  disk : Disk

namespace Exchange

variable (x : Exchange) (id : Text)

/-- A session was made that has the id. -/
def Makes : Prop := x.ask = some .create ∧ ∃ session, x.response.body = .session id session

/-- The session was dropped by request. -/
def Drops : Prop := x.ask = some (.drop id) ∧ x.response.status = 204

/-- A line that runs `exit` was run in the session. -/
def Exits : Prop :=
  ∃ line, x.ask = some (.run id line) ∧ x.response.status = 200 ∧
    CommandLine.closes line = true

end Exchange

namespace Site

/-- The exchanges when requests are answered one after another. -/
def serve : Site → List Request → List Exchange
  | _, [] => []
  | σ, q :: qs => ⟨σ.ask? q, (σ.answer q).1, (σ.answer q).2.world.disk⟩ :: serve (σ.answer q).2 qs

/-- The site after the requests. -/
def after (σ : Site) (qs : List Request) : Site := qs.foldl (fun σ q => (σ.answer q).2) σ

theorem serve_append (qs qs' : List Request) :
    ∀ σ : Site, σ.serve (qs ++ qs') = σ.serve qs ++ (σ.after qs).serve qs' := by
  induction qs with
  | nil => exact fun _ => rfl
  | cons q qs ih => exact fun σ => congrArg _ (ih (σ.answer q).2)

end Site

/-! ## One request -/

theorem Ask.ne_create {a : Ask} {id : Text} (h : a.id? = some id) : a ≠ .create := by
  rintro rfl
  cases h

/-- No id is there twice or will come twice, and all sessions are active. -/
structure Registry.Tidy (r : Registry) : Prop extends r.Orderly where
  active : ∀ id session, r.get id = .ok session → session.active = true

namespace Registry.Serves

variable {r r' : Registry} {fresh : Session} {k : Option Ask} {a : Response} {id : Text}

theorem tidy (h : r.Tidy) (hfresh : fresh.active = true) (hs : r.Serves fresh k a r') :
    r'.Tidy := by
  cases hs with
  | aside | unknown | look => exact h
  | create =>
    refine ⟨h.toOrderly.create fresh, fun id session hget => ?_⟩
    rw [get_create h.not_mem] at hget
    split_ifs at hget
    · exact Except.ok.inj hget ▸ hfresh
    · exact h.active _ _ hget
  | drop =>
    refine ⟨h.toOrderly.discard _, fun id session hget => ?_⟩
    rw [get_discard] at hget
    split_ifs at hget
    exact h.active _ _ hget
  | stopped hold =>
    refine ⟨h.toOrderly.put _ _, fun id session hget => ?_⟩
    rw [get_put (knows_of_get hold)] at hget
    split_ifs at hget
    · exact Except.ok.inj hget ▸ h.active _ _ hold
    · exact h.active _ _ hget
  | run hk hactive =>
    refine ⟨h.toOrderly.put _ _, fun id session hget => ?_⟩
    rw [get_put hk] at hget
    split_ifs at hget
    · exact Except.ok.inj hget ▸ hactive
    · exact h.active _ _ hget
  | exit hk =>
    refine ⟨(h.toOrderly.put _ _).discard _, fun id session hget => ?_⟩
    rw [get_discard, get_put hk] at hget
    split_ifs at hget
    exact h.active _ _ hget

theorem status_eq_iff (hs : r.Serves fresh k a r') (hid : k.bind Ask.id? = some id) :
    a.status = 404 ↔ ¬ r.Knows id := by
  cases hs with
  | aside | create => cases hid
  | unknown hi hk =>
    obtain rfl : _ = id := Option.some.inj (hi.symm.trans hid)
    exact iff_of_true rfl hk
  | look hget | stopped hget =>
    obtain rfl : _ = id := Option.some.inj hid
    exact iff_of_false (by simp) (not_not_intro (knows_of_get hget))
  | drop hk | run hk | exit hk =>
    obtain rfl : _ = id := Option.some.inj hid
    exact iff_of_false (by simp) (not_not_intro hk)

theorem status_ne (hs : r.Serves fresh k a r') : a.status ≠ 409 := by
  cases hs with
  | aside hstatus => exact fun h => absurd (h ▸ hstatus) (by decide)
  | create | unknown | look | drop | stopped | run | exit => exact Nat.ne_of_beq_eq_false rfl

/-- A request touches no session but the one it is about. -/
theorem get_eq_get (hs : r.Serves fresh k a r') (h : r.Orderly) (hid : k.bind Ask.id? ≠ some id)
    (hc : k ≠ some .create ∨ r.Knows id) : r'.get id = r.get id := by
  cases hs with
  | aside | unknown | look => rfl
  | create =>
    rw [get_create h.not_mem, if_neg]
    rintro rfl
    exact h.not_mem (knows_iff.1 (hc.resolve_left (not_not_intro rfl)))
  | drop =>
    rw [get_discard, if_neg]
    rintro rfl
    exact hid rfl
  | stopped hget =>
    rw [get_put (knows_of_get hget), if_neg]
    rintro rfl
    exact hid rfl
  | run hk =>
    rw [get_put hk, if_neg]
    rintro rfl
    exact hid rfl
  | exit hk =>
    have hne : id ≠ _ := fun hi => hid (by rw [hi]; rfl)
    rw [get_discard, if_neg hne, get_put hk, if_neg hne]

variable {x : Exchange}

theorem knows_iff_of (hs : r.Serves fresh x.ask x.response r') (id : Text) : r'.Knows id ↔
    (r.Knows id ∧ ¬ x.Drops id ∧ ¬ x.Exits id) ∨ x.Makes id := by
  obtain ⟨k, a, d⟩ := x
  unfold Exchange.Drops Exchange.Exits Exchange.Makes
  cases hs with
  | aside | look => simp
  | create => simp [knows_create, @eq_comm _ id]
  | unknown hi => simp [Ask.ne_create hi]
  | drop => simp [knows_discard, @eq_comm _ id]
  | stopped => simp [knows_put]
  | run _ _ hline => simp [hline, knows_put]
  | exit _ _ hline => simp [hline, knows_put, knows_discard, @eq_comm _ id]

theorem knows_of_gone (hs : r.Serves fresh x.ask x.response r')
    (h : x.Drops id ∨ x.Exits id) : r.Knows id := by
  obtain ⟨k, a, d⟩ := x
  unfold Exchange.Drops Exchange.Exits at h
  cases hs with
  | aside | create | unknown | look | stopped => simp at h
  | drop hk =>
    obtain rfl : _ = id := by simpa using h
    exact hk
  | run hk | exit hk =>
    obtain ⟨rfl, -⟩ : _ = id ∧ _ := by simpa using h
    exact hk

theorem eq_new (hs : r.Serves fresh x.ask x.response r') (h : x.Makes id) :
    r'.created = r.created + 1 ∧ id = r.idOf r.created := by
  obtain ⟨k, a, d⟩ := x
  unfold Exchange.Makes at h
  cases hs with
  | aside | look | drop | stopped | run | exit => simp at h
  | unknown hi => simp [Ask.ne_create hi] at h
  | create =>
    obtain ⟨-, session, hbody⟩ := h
    exact ⟨rfl, ((Body.session.inj hbody).1).symm⟩

theorem handing (hs : r.Serves fresh k a r') : r'.idOf = r.idOf ∧ r.created ≤ r'.created := by
  cases hs with
  | aside | unknown | look | drop | stopped | run | exit => exact ⟨rfl, Nat.le_refl _⟩
  | create => exact ⟨rfl, Nat.le_succ _⟩

/-- What is there was made, and neither dropped nor told to be closed. -/
theorem size_eq_of (h : r.Tidy) (hfresh : fresh.active = true)
    (hs : r.Serves fresh x.ask x.response r') :
    r'.size + [x].countP (·.response.status == 204) + [x].countP (·.response.body.inactive) =
      r.size + [x].countP (·.ask == some .create) := by
  obtain ⟨k, a, d⟩ := x
  simp only [List.countP_singleton]
  cases hs with
  | aside hstatus hbody =>
    have : a.status ≠ 204 := fun h => absurd (h ▸ hstatus) (by decide)
    simp [hbody, this]
  | create => simp [size_create, Body.inactive, hfresh]
  | unknown hi => simp [Ask.ne_create hi, Body.inactive]
  | look hget => simp [Body.inactive, h.active _ _ hget]
  | drop hk => simp [Body.inactive, h.size_discard hk]
  | stopped => simp [Body.inactive, size_put]
  | run hk hactive => simp [Body.inactive, hactive, size_put]
  | exit hk hactive =>
    simp [Body.inactive, hactive, (h.put _ _).size_discard (knows_put.2 hk), size_put]

end Registry.Serves

/-! ## Runs of requests -/

/-- What a registry knows can be told from the exchanges that it comes from. -/
structure Tells (es : List Exchange) (r : Registry) : Prop where
  handed : ∀ id, (∃ x ∈ es, x.Makes id) → ∃ n < r.created, r.idOf n = id
  made : ∀ id, (∃ x ∈ es, x.Drops id ∨ x.Exits id) → ∃ x ∈ es, x.Makes id
  known : ∀ id, r.Knows id ↔
    (∃ x ∈ es, x.Makes id) ∧ ¬ ∃ x ∈ es, x.Drops id ∨ x.Exits id
  size : r.size + es.countP (·.response.status == 204) + es.countP (·.response.body.inactive) =
    es.countP (·.ask == some .create)

namespace Tells

variable {es : List Exchange} {x : Exchange} {r r' : Registry} {fresh : Session}

theorem empty (idOf : Nat → Text) : Tells [] (Registry.empty idOf) where
  handed _ h := by obtain ⟨_, ⟨⟩, _⟩ := h
  made _ h := by obtain ⟨_, ⟨⟩, _⟩ := h
  known id := by simp [Registry.knows_iff, Registry.ids, Registry.empty]
  size := rfl

theorem exists_mem_concat {P : Exchange → Prop} :
    (∃ y ∈ es ++ [x], P y) ↔ (∃ y ∈ es, P y) ∨ P x := by
  simp only [List.mem_append, List.mem_singleton, or_and_right, exists_or, exists_eq_left]

theorem step (h : Tells es r) (ht : r.Tidy) (hfresh : fresh.active = true)
    (hs : r.Serves fresh x.ask x.response r') : Tells (es ++ [x]) r' where
  handed id hmade := by
    obtain ⟨hidOf, hle⟩ := hs.handing
    rw [hidOf]
    rcases exists_mem_concat.1 hmade with hmade | hmade
    · obtain ⟨n, hn, rfl⟩ := h.handed id hmade
      exact ⟨n, hn.trans_le hle, rfl⟩
    · obtain ⟨hc, rfl⟩ := hs.eq_new hmade
      exact ⟨r.created, hc ▸ Nat.lt_succ_self _, rfl⟩
  made id hgone := by
    rw [exists_mem_concat]
    rcases exists_mem_concat.1 hgone with hgone | hgone
    · exact .inl (h.made id hgone)
    · exact .inl ((h.known id).1 (hs.knows_of_gone hgone)).1
  known id := by
    rw [hs.knows_iff_of, h.known, exists_mem_concat, exists_mem_concat]
    constructor
    · rintro (⟨⟨hmade, hgone⟩, hx⟩ | hmade)
      · exact ⟨.inl hmade, fun hg => hg.elim hgone fun hg => hg.elim hx.1 hx.2⟩
      · obtain ⟨-, rfl⟩ := hs.eq_new hmade
        -- an id that comes now was not made before, so nothing was done with it
        refine ⟨.inr hmade, fun hg => hg.elim (fun hg => ?_) fun hg =>
          ht.not_mem (Registry.knows_iff.1 (hs.knows_of_gone hg))⟩
        obtain ⟨n, hn, heq⟩ := h.handed _ (h.made _ hg)
        exact absurd (ht.distinct heq) (Nat.ne_of_lt hn)
    · rintro ⟨hmade | hmade, hgone⟩
      · exact .inl ⟨⟨hmade, fun hg => hgone (.inl hg)⟩, fun hx => hgone (.inr (.inl hx)),
          fun hx => hgone (.inr (.inr hx))⟩
      · exact .inr hmade
  size := by
    have hx := hs.size_eq_of ht hfresh
    have hes := h.size
    simp only [List.countP_append]
    omega

end Tells

namespace Site

/-- Where sessions start is active, and so are the sessions that there are. -/
structure Tidy (σ : Site) : Prop where
  fresh : σ.service.fresh.active = true
  registry : σ.registry.Tidy

variable {σ : Site}

theorem Tidy.serves (h : σ.Tidy) (q : Request) :
    (σ.answer q).2.Tidy ∧ σ.registry.Serves σ.service.fresh (σ.ask? q) (σ.answer q).1
      (σ.answer q).2.registry := by
  obtain ⟨r, hr, hs⟩ := serves_answer h.registry.active q
  have hreg : (σ.answer q).2.registry = r := congrArg Http.Service.registry hr
  rw [hreg]
  refine ⟨⟨?_, ?_⟩, hs⟩
  · rw [hr]
    exact h.fresh
  · rw [hreg]
    exact hs.tidy h.registry h.fresh

/-- The invariants hold after every run of requests, as they hold after each one. -/
theorem Tidy.tells_serve (qs : List Request) : ∀ {σ : Site} {es : List Exchange}, σ.Tidy →
    Tells es σ.registry →
    (σ.after qs).Tidy ∧ Tells (es ++ σ.serve qs) (σ.after qs).registry := by
  induction qs with
  | nil => exact fun h htells => ⟨h, (List.append_nil _).symm ▸ htells⟩
  | cons q qs ih =>
    intro σ es h htells
    obtain ⟨h', hs⟩ := h.serves q
    have hstep := htells.step (x := ⟨_, _, (σ.answer q).2.world.disk⟩) h.registry h.fresh hs
    have := ih h' hstep
    rwa [List.append_assoc] at this

end Site

/-- What holds after requests were answered, the exchanges being `es`. -/
structure LifeCycle (es : List Exchange) (σ : Site) : Prop where
  /-- Each session that is registered is active. -/
  active : ∀ id session, σ.registry.get id = .ok session → session.active = true
  /-- An id is known if it was made, and neither dropped nor used to exit. -/
  known : ∀ id, σ.registry.Knows id ↔
    (∃ x ∈ es, x.Makes id) ∧ ¬ ∃ x ∈ es, x.Drops id ∨ x.Exits id
  /-- There are as many sessions as were made, less those dropped and those told to be closed. -/
  size : σ.registry.size + es.countP (·.response.status == 204) +
    es.countP (·.response.body.inactive) = es.countP (·.ask == some .create)
  /-- A request about a session is told that there is none if its id is not known. -/
  missing : ∀ q id, (σ.ask? q).bind Ask.id? = some id →
    ((σ.answer q).1.status = 404 ↔ ¬ σ.registry.Knows id)
  /-- No request meets a session that has exited. -/
  conflict : ∀ q, (σ.answer q).1.status ≠ 409
  /-- A request touches no session but the one that it is about, or that it makes. -/
  apart : ∀ q id, (σ.ask? q).bind Ask.id? ≠ some id →
    σ.ask? q ≠ some .create ∨ σ.registry.Knows id →
    (σ.answer q).2.registry.get id = σ.registry.get id

theorem Site.tidy_start {idOf : Nat → Text} (hid : Function.Injective idOf) {directory home : Path}
    {fresh : Session} (hfresh : Session.start? directory home = some fresh) (routing : Routing)
    (s : Storage) (w : World) : Tidy ⟨⟨routing, s, fresh, .empty idOf⟩, w⟩ where
  fresh := by
    unfold Session.start? at hfresh
    split_ifs at hfresh
    obtain rfl := Option.some.inj hfresh
    rfl
  registry := ⟨.empty hid, fun _ _ h => by cases h⟩

theorem Site.Tidy.lifeCycle {es : List Exchange} {σ : Site} (h : σ.Tidy)
    (htells : Tells es σ.registry) : LifeCycle es σ where
  active := h.registry.active
  known := htells.known
  size := htells.size
  missing q _ hid := (h.serves q).2.status_eq_iff hid
  conflict q := (h.serves q).2.status_ne
  apart q _ := (h.serves q).2.get_eq_get h.registry.toOrderly

/-- However requests are taken in, whatever is asked, from an empty registry on, and in whatever
order: what is known is what the answers tell, and an id that is no longer known will not be known
again. -/
theorem life_cycle {idOf : Nat → Text} (hid : Function.Injective idOf) {directory home : Path}
    {fresh : Session} (hfresh : Session.start? directory home = some fresh) (routing : Routing)
    (s : Storage) (w : World) (qs : List Request) :
    let start : Site := ⟨⟨routing, s, fresh, .empty idOf⟩, w⟩
    LifeCycle (start.serve qs) (start.after qs) ∧
      ∀ id, (start.after qs).registry.Knows id →
        ∀ qs', ¬ (start.after (qs ++ qs')).registry.Knows id →
          ∀ qs'', ¬ (start.after (qs ++ qs' ++ qs'')).registry.Knows id := by
  intro start
  have hrun (ps : List Request) : LifeCycle (start.serve ps) (start.after ps) := by
    obtain ⟨h, htells⟩ := (Site.tidy_start hid hfresh routing s w).tells_serve ps (Tells.empty idOf)
    exact h.lifeCycle htells
  refine ⟨hrun qs, fun id hk qs' hn qs'' hk' => ?_⟩
  obtain ⟨⟨x, hx, hmade⟩, -⟩ := ((hrun qs).known id).1 hk
  obtain ⟨-, hkept⟩ := ((hrun _).known id).1 hk'
  refine hn (((hrun _).known id).2 ⟨⟨x, ?_, hmade⟩, fun ⟨y, hy, hgone⟩ => hkept ⟨y, ?_, hgone⟩⟩)
  · rw [Site.serve_append]
    exact List.mem_append_left _ hx
  · rw [Site.serve_append]
    exact List.mem_append_left _ hy

/-- Two sessions are made. One closes itself, with a redirection, and is then asked for; the other
one is dropped twice. -/
def visits : List Request :=
  [⟨"POST".toList, "/sessions".toList, none⟩, ⟨"POST".toList, "/sessions".toList, none⟩,
   ⟨"POST".toList, "/sessions/n/commands".toList, some "exit now > f".toList⟩,
   ⟨"GET".toList, "/sessions/n".toList, none⟩, ⟨"DELETE".toList, "/sessions/nn".toList, none⟩,
   ⟨"DELETE".toList, "/sessions/nn".toList, none⟩]

theorem life_cycle_visits :
    let idOf : Nat → Text := fun n => List.replicate (n + 1) 'n'
    let fresh : Session := ⟨"/".toList, "/".toList, true⟩
    let start : Site := ⟨⟨.standard, { chunk := 512 }, fresh, .empty idOf⟩, ⟨⟨[]⟩, []⟩⟩
    Function.Injective idOf ∧ Session.start? "/".toList "/".toList = some fresh ∧
      LifeCycle (start.serve visits) (start.after visits) ∧
      ¬ (start.after visits).registry.Knows "n".toList ∧
      (start.serve visits).map (fun x => (x.response.status, x.response.body.inactive)) =
        [(201, false), (201, false), (200, true), (404, false), (204, false), (404, false)] := by
  intro idOf fresh start
  have hid : Function.Injective idOf := fun m n h => by
    simpa [idOf] using congrArg List.length h
  have h := life_cycle hid (show Session.start? "/".toList "/".toList = some fresh from rfl)
    .standard { chunk := 512 } ⟨⟨[]⟩, []⟩
  have hk : (start.after (visits.take 1)).registry.Knows "n".toList :=
    Registry.knows_iff.2 (by decide +kernel)
  have hn : ¬ (start.after (visits.take 1 ++ (visits.drop 1).take 2)).registry.Knows "n".toList :=
    fun hk => absurd (Registry.knows_iff.1 hk) (by decide +kernel)
  refine ⟨hid, rfl, (h visits).1, (h (visits.take 1)).2 _ hk _ hn (visits.drop 3), ?_⟩
  decide +kernel

end FileShell
