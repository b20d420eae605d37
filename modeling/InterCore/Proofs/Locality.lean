import InterCore.Proofs.Desks

/-!
# Programs and desks

Some programs work at one desk: what they do depends on what is on this desk only, and they change
nothing else. Some programs pass by a desk: they do the same whatever is on it, and leave it as it
is. Both properties are kept by sequences, so they are read off a program step by step.

## Main definitions

* `Board.WorksAt`, `Board.PassesBy`: the two kinds of programs.

## Main results

* `Board.WorksAt.bind`, `Board.PassesBy.bind`, `Board.PassesBy.drain`: sequences and loops.
* `Board.PassesBy.pushBack`, `Board.PassesBy.popFront`: splices pass by every desk.
* `Board.WorksAt.passesBy`: what works at one desk passes by the others.
-/

namespace InterCore

open Memory

variable {σ α β : Type}

namespace Board

/-- What a program ends with, on a board that is changed. -/
def mapEnd (f : Board σ → Board σ) :
    EStateM.Result Halt (Board σ) α → EStateM.Result Halt (Board σ) α
  | .ok r b => .ok r (f b)
  | .error e b => .error e (f b)

section Kinds

variable (p : Placement) (traces : Bool) (note : Event → σ → σ) (o : Outlet)

/-- The program works at one desk. It always finishes, with an answer, with a desk and after events
that depend on what was on this desk only. -/
def WorksAt (x : BoardM σ α) : Prop :=
  ∀ b : Board σ, b.Furnished p traces → ∃ (r : α) (d : Desk o) (events : List Event),
    ∀ b' : Board σ, b'.Furnished p traces → b'.desk p o = b.desk p o →
      x.run b' = .ok r (b'.withDesk p d (Event.noteAll note events b'.sink))

/-- From a board the program passes by a desk. Whatever is on the desk, and whatever the observer
keeps, it does the same, tells the same events, and leaves the desk as it is. -/
def PassesBy (x : BoardM σ α) (b : Board σ) : Prop :=
  b.Furnished p traces →
    (∃ events : List Event, ∀ (d : Desk o) (z : σ), x.run (b.withDesk p d z) =
      mapEnd (fun b' => b'.withDesk p d (Event.noteAll note events z)) (x.run b)) ∧
    ∀ r b', x.run b = .ok r b' → b'.Furnished p traces

end Kinds

variable {p : Placement} {traces : Bool} {note : Event → σ → σ} {o o' : Outlet} {b : Board σ}
  {c : Channel}

namespace WorksAt

variable {x : BoardM σ α} {f : α → BoardM σ β}

theorem pure (r : α) : WorksAt p traces note o (Pure.pure r) := fun b _ =>
  ⟨r, b.desk p o, [], fun b' _ hdesk => by rw [← hdesk, withDesk_desk]; rfl⟩

theorem tell (e : Event) : WorksAt p traces note o (Observer.passive note e) := fun b _ =>
  ⟨(), b.desk p o, [e], fun b' _ hdesk => by rw [← hdesk, withDesk_desk]; rfl⟩

/-- Programs one after the other. -/
theorem bind (hx : WorksAt p traces note o x) (hf : ∀ r, WorksAt p traces note o (f r)) :
    WorksAt p traces note o (x >>= f) := by
  intro b hb
  obtain ⟨r, d, events, hrun⟩ := hx b hb
  obtain ⟨r₁, d₁, events₁, hrun₁⟩ := hf r _ (hb.withDesk d (Event.noteAll note events b.sink))
  refine ⟨r₁, d₁, events ++ events₁, fun b' hb' hdesk => ?_⟩
  rw [run_bind_ok (hrun b' hb' hdesk), hrun₁ _ (hb'.withDesk d _) (by rw [desk_withDesk,
    desk_withDesk]), withDesk_withDesk, Event.noteAll_append]
  rfl

theorem map (hx : WorksAt p traces note o x) (g : α → β) : WorksAt p traces note o (g <$> x) := by
  rw [map_eq_pure_bind]
  exact hx.bind fun r => .pure (g r)

/-- A first program that finds the same on every board. -/
theorem bind_of_run {r : α} (hx : ∀ b : Board σ, b.Furnished p traces → x.run b = .ok r b)
    (hf : WorksAt p traces note o (f r)) : WorksAt p traces note o (x >>= f) := by
  intro b hb
  obtain ⟨r₁, d, events, hrun⟩ := hf b hb
  exact ⟨r₁, d, events, fun b' hb' hdesk =>
    (run_bind_ok (hx b' hb')).trans (hrun b' hb' hdesk)⟩

/-- A look at the board, of which the program uses what is on the desk. -/
theorem get {f : Board σ → BoardM σ α} (hf : ∀ b b' : Board σ, b.Furnished p traces →
      b'.Furnished p traces → b'.desk p o = b.desk p o → f b' = f b)
    (h : ∀ b, b.Furnished p traces → WorksAt p traces note o (f b)) :
    WorksAt p traces note o (MonadState.get >>= f) := by
  intro b hb
  obtain ⟨r, d, events, hrun⟩ := h b hb b hb
  refine ⟨r, d, events, fun b' hb' hdesk => ?_⟩
  rw [← hrun b' hb' hdesk, ← hf b b' hb hb' hdesk]
  rfl

/-- A look at the channel of the desk, of which the program uses the half that the host rings. -/
theorem bell {f : Bell → BoardM σ α} (hf : ∀ v v' : Bell, v'.outbound = v.outbound → f v' = f v)
    (h : ∀ v, WorksAt p traces note o (f v)) :
    WorksAt p traces note o (Board.bell o.channel >>= f) := by
  intro b hb
  obtain ⟨r, d, events, hrun⟩ := h (b.panel.get o.channel) b hb
  refine ⟨r, d, events, fun b' hb' hdesk => ?_⟩
  rw [run_bind_ok (run_bell b' _), hf (b.panel.get o.channel) _ (congrArg Desk.bell hdesk)]
  exact hrun b' hb' hdesk

theorem ite {P : Prop} [Decidable P] {x y : BoardM σ α} (hx : WorksAt p traces note o x)
    (hy : WorksAt p traces note o y) : WorksAt p traces note o (if P then x else y) := by
  split
  · exact hx
  · exact hy

/-- A change of nothing but the desk, by what is on the desk. -/
theorem of_modify {k : Board σ → Board σ} (hk : ∀ b, k b = b.withDesk p ((k b).desk p o) b.sink)
    (hdesk : ∀ b b' : Board σ, b'.desk p o = b.desk p o → (k b').desk p o = (k b).desk p o) :
    WorksAt p traces note o (modify k : BoardM σ Unit) := fun b _ =>
  ⟨(), (k b).desk p o, [], fun b' _ h => by
    rw [← hdesk b b' h]
    exact congrArg (EStateM.Result.ok ()) (hk b')⟩

/-- The packet on the desk may be written. -/
theorem modifyMemory {f : Memory → Memory} (hf : ∀ m, AgreeOff (Within (o.start p) o.size) m (f m))
    (hsame : ∀ m m', AgreeOff (fun k => ¬ Within (o.start p) o.size k) m m' →
      AgreeOff (fun k => ¬ Within (o.start p) o.size k) (f m) (f m')) :
    WorksAt p traces note o (Board.modifyMemory f) := by
  refine of_modify (fun b => eq_withDesk (hf _) (modify_outbound _) (Host.withMarks_marks _) rfl)
    fun b b' h => ?_
  obtain ⟨hbytes, hbell, hmarks⟩ := Desk.ext_iff.mp h
  exact Desk.ext ((hsame _ _ (.of_read_eq hbytes)).read_eq fun _ hk => not_not.mpr hk) hbell hmarks

/-- The half of the channel that the host rings may change. -/
theorem modifyBell {f : Bell → Bell} {g : Outbound → Outbound}
    (hin : ∀ v, (f v).inbound = v.inbound) (hout : ∀ v, (f v).outbound = g v.outbound) :
    WorksAt p traces note o (Board.modifyBell o.channel f) := by
  have hbell' (b : Board σ) : ((b.panel.modify o.channel f).get o.channel).outbound =
      g (b.panel.get o.channel).outbound := by rw [Panel.get_modify_self, hout]
  refine of_modify (fun b => eq_withDesk (.refl _ _) ?_ (Host.withMarks_marks _) rfl)
    fun b b' h => ?_
  · show b.panel.modify _ _ = b.panel.modify _ f
    rw [Panel.get_modify_self]
    exact Panel.modify_congr (Bell.eq_withOutbound (hin _)).symm
  · obtain ⟨hbytes, hbell, hmarks⟩ := Desk.ext_iff.mp h
    exact Desk.ext hbytes ((hbell' _).trans ((congrArg g hbell).trans (hbell' _).symm)) hmarks

theorem ring : WorksAt p traces note o (Board.modifyBell o.channel Bell.ring) :=
  modifyBell (g := fun x => { x with hostFlag := true, rings := x.rings + 1 }) Bell.inbound_ring
    fun _ => rfl

theorem acknowledge : WorksAt p traces note o (Board.modifyBell o.channel Bell.acknowledge) :=
  modifyBell (g := ({ · with hostFlag := false })) Bell.inbound_acknowledge fun _ => rfl

theorem enableTx (on : Bool) :
    WorksAt p traces note o (Board.modifyBell o.channel (·.enableTx on)) :=
  modifyBell (g := ({ · with txEnabled := on })) (Bell.inbound_enableTx on) fun _ => rfl

/-- The host may note something else about the buffer. -/
theorem modifyHost {f : Host → Host} {g : o.Marks → o.Marks}
    (hf : ∀ h, f h = h.withMarks o (g (h.marks o))) :
    WorksAt p traces note o (Board.modifyHost f) := by
  have hmarks' : ∀ h, (f h).marks o = g (h.marks o) := fun h => by rw [hf, Host.marks_withMarks]
  refine of_modify (fun b => eq_withDesk (.refl _ _) (modify_outbound _) ?_ rfl) fun b b' h => ?_
  · show b.host.withMarks o ((f b.host).marks o) = f b.host
    rw [hmarks', hf]
  · obtain ⟨hbytes, hbell, hmarks⟩ := Desk.ext_iff.mp h
    exact Desk.ext hbytes hbell ((hmarks' _).trans ((congrArg g hmarks).trans (hmarks' _).symm))

end WorksAt

namespace PassesBy

variable {x y : BoardM σ α} {f : α → BoardM σ β}

theorem pure (r : α) : PassesBy p traces note o (Pure.pure r) b := fun hb =>
  ⟨⟨[], fun _ _ => rfl⟩, fun _ _ hrun => by cases hrun; exact hb⟩

theorem throw (e : Halt) : PassesBy p traces note o (throw e : BoardM σ α) b := fun _ =>
  ⟨⟨[], fun _ _ => rfl⟩, fun _ _ hrun => by cases hrun⟩

/-- What is asked of a program may be asked of one that does the same whatever is on the desk. -/
theorem congr (h : ∀ (d : Desk o) (z : σ), x.run (b.withDesk p d z) = y.run (b.withDesk p d z))
    (hy : PassesBy p traces note o y b) : PassesBy p traces note o x b := by
  have hself := h (b.desk p o) b.sink
  rw [withDesk_desk] at hself
  intro hb
  obtain ⟨⟨events, hevents⟩, hkept⟩ := hy hb
  exact ⟨⟨events, fun d z => by rw [h, hevents, ← hself]⟩,
    fun r b' hrun => hkept r b' (hself ▸ hrun)⟩

/-- A program that finds the same whatever is on the desk. -/
theorem of_run {r : α} (hx : ∀ (d : Desk o) (z : σ),
    x.run (b.withDesk p d z) = .ok r (b.withDesk p d z)) : PassesBy p traces note o x b :=
  congr hx (pure r)

/-- Programs one after the other. -/
theorem bind (hx : PassesBy p traces note o x b)
    (hf : ∀ r b', x.run b = .ok r b' → PassesBy p traces note o (f r) b') :
    PassesBy p traces note o (x >>= f) b := by
  intro hb
  obtain ⟨⟨events, hevents⟩, hkept⟩ := hx hb
  cases hrun : x.run b with
  | error e b' =>
    rw [hrun] at hevents
    refine ⟨⟨events, fun d z => ?_⟩, fun r b₁ hrun₁ => ?_⟩
    · rw [run_bind_error hrun, run_bind_error (hevents d z)]
      rfl
    · rw [run_bind_error hrun] at hrun₁
      cases hrun₁
  | ok r b' =>
    rw [hrun] at hevents
    obtain ⟨⟨events', hevents'⟩, hkept'⟩ := hf r b' hrun (hkept r b' hrun)
    refine ⟨⟨events ++ events', fun d z => ?_⟩, fun r₁ b₁ hrun₁ => ?_⟩
    · rw [run_bind_ok hrun, run_bind_ok (hevents d z), hevents', Event.noteAll_append]
    · rw [run_bind_ok hrun] at hrun₁
      exact hkept' r₁ b₁ hrun₁

theorem map (hx : PassesBy p traces note o x b) (g : α → β) :
    PassesBy p traces note o (g <$> x) b := by
  rw [map_eq_pure_bind]
  exact hx.bind fun r _ _ => pure (g r)

/-- A first program that finds the same whatever is on the desk. -/
theorem bind_of_run {r : α} (hx : ∀ (d : Desk o) (z : σ),
      x.run (b.withDesk p d z) = .ok r (b.withDesk p d z))
    (hf : PassesBy p traces note o (f r) b) : PassesBy p traces note o (x >>= f) b :=
  congr (fun d z => run_bind_ok (hx d z)) hf

/-- A look at the board, of which the program does not use the desk. -/
theorem get {f : Board σ → BoardM σ α} (hf : ∀ (d : Desk o) (z : σ), f (b.withDesk p d z) = f b)
    (h : PassesBy p traces note o (f b) b) : PassesBy p traces note o (MonadState.get >>= f) b :=
  congr (fun d z => congrArg (·.run (b.withDesk p d z)) (hf d z)) h

/-- A look at a channel, of which the program does not use the half that belongs to the desk. -/
theorem bell {f : Bell → BoardM σ α}
    (hf : c = o.channel → ∀ x v, f (v.withOutbound x) = f v)
    (h : PassesBy p traces note o (f (b.panel.get c)) b) :
    PassesBy p traces note o (Board.bell c >>= f) b := by
  refine congr (fun d z => ?_) h
  rw [run_bind_ok (run_bell _ _)]
  refine congrArg (fun y : BoardM σ α => y.run (b.withDesk p d z)) ?_
  show f ((b.panel.modify o.channel _).get c) = _
  rw [Panel.get_modify]
  split
  · next hc => rw [hf hc.symm, hc]
  · rfl

/-! ### Changes -/

/-- A change that passes by the desk. -/
theorem of_modify {k : Board σ → Board σ}
    (hk : ∀ (d : Desk o) (z : σ), k (b.withDesk p d z) = (k b).withDesk p d z)
    (hkept : b.Furnished p traces → (k b).Furnished p traces) :
    PassesBy p traces note o (modify k : BoardM σ Unit) b := fun hb =>
  ⟨⟨[], fun d z => congrArg (EStateM.Result.ok ()) (hk d z)⟩,
    fun _ _ hrun => by cases hrun; exact hkept hb⟩

theorem tell (e : Event) : PassesBy p traces note o (Observer.passive note e) b := fun hb =>
  ⟨⟨[e], fun _ _ => rfl⟩, fun _ _ hrun => by cases hrun; exact { hb with }⟩

theorem modifyPeer {f : Peer → Peer} (hf : (f b.peer).referenceTable = b.peer.referenceTable) :
    PassesBy p traces note o (Board.modifyPeer f) b :=
  of_modify (fun _ _ => rfl) fun hb => { hb with table := hf.trans hb.table }

theorem modifyBoxes (f : Array Box → Array Box) : PassesBy p traces note o
    (modify (fun b : Board σ => { b with boxes := f b.boxes }) : BoardM σ Unit) b :=
  of_modify (fun _ _ => rfl) fun hb => { hb with }

theorem modifyBell {f : Bell → Bell}
    (hf : c = o.channel → ∀ x v, f (v.withOutbound x) = (f v).withOutbound x) :
    PassesBy p traces note o (Board.modifyBell c f) b := by
  refine of_modify (fun d z => ?_) fun hb => { hb with }
  have hpanel : (b.panel.modify o.channel (·.withOutbound d.bell)).modify c f =
      (b.panel.modify c f).modify o.channel (·.withOutbound d.bell) := by
    by_cases hc : c = o.channel
    · rw [hc, Panel.modify_modify_self, Panel.modify_modify_self]
      exact Panel.modify_congr (hf hc _ _)
    · exact Panel.modify_comm _ (Ne.symm hc)
  rw [withDesk, hpanel, withDesk]

theorem modifyHost {f : Host → Host}
    (hf : ∀ (h : Host) (x : o.Marks), f (h.withMarks o x) = (f h).withMarks o x)
    (hplace : (f b.host).place = b.host.place) (harena : (f b.host).arena = b.host.arena) :
    PassesBy p traces note o (Board.modifyHost f) b := by
  refine of_modify (fun d z => ?_) fun hb =>
    { hb with place := hplace.trans hb.place, arena := harena.trans hb.arena }
  rw [withDesk, hf, withDesk]

/-- Bytes that belong to no table may change, if they change alike before and after a write to the
desk. -/
theorem modifyMemory {f : Memory → Memory} (hf : b.Furnished p traces → ∀ d : Desk o,
      f (b.memory.write (o.start p) d.bytes) = (f b.memory).write (o.start p) d.bytes)
    (hagree : b.Furnished p traces → AgreeOff (fun k => ¬ p.TableByte k) b.memory (f b.memory)) :
    PassesBy p traces note o (Board.modifyMemory f) b := by
  intro hb
  refine of_modify (fun d z => ?_) (fun hb => { hb with
    published := hb.published.of_agreeOff hb.valid (hagree hb) fun _ hk => not_not.mpr hk }) hb
  rw [withDesk, hf hb, withDesk]

/-! ### Links -/

/-- A program that changes links and learns something. -/
theorem extract {f : Arena → Memory → Except Halt (α × Memory)}
    (hf : ∀ d : Desk o, Chain.Beside p.arena (o.start p) d.bytes.length →
      f p.arena (b.memory.write (o.start p) d.bytes) =
        (f p.arena b.memory).map (Prod.map id (·.write (o.start p) d.bytes)))
    (hlinks : ∀ r m, f p.arena b.memory = .ok (r, m) →
      AgreeOff (p.arena.Links p.arena.Has) b.memory m) :
    PassesBy p traces note o (Board.extract f) b := by
  intro hb
  have hwrite (d : Desk o) (z : σ) : f (b.withDesk p d z).host.arena (b.withDesk p d z).memory =
      (f b.host.arena b.memory).map (Prod.map id (·.write (o.start p) d.bytes)) := by
    rw [(hb.withDesk d z).arena, hb.arena]
    exact hf d (d.length_bytes ▸ hb.valid.beside_desk o)
  cases hm : f b.host.arena b.memory with
  | error e =>
    have hrun := run_extract_error b hm
    refine ⟨⟨[], fun d z => ?_⟩, fun r b' hrun' => ?_⟩
    · rw [hrun]
      exact run_extract_error _ (by rw [hwrite, hm]; rfl)
    · rw [hrun] at hrun'
      cases hrun'
  | ok x =>
    have hrun : (Board.extract f).run b = .ok x.1 { b with memory := x.2 } := run_extract_ok b hm
    refine ⟨⟨[], fun d z => ?_⟩, fun r b' hrun' => ?_⟩
    · rw [hrun]
      exact run_extract_ok _ (by rw [hwrite, hm]; rfl)
    · rw [hrun] at hrun'
      cases hrun'
      rw [hb.arena] at hm
      exact hb.of_links (hlinks _ _ hm)

/-- The first node is taken out of a chain. -/
theorem popFront (head : NodeIndex) :
    PassesBy p traces note o (Board.extract fun a m => Chain.popFront a m head) b :=
  extract (fun d hd => Chain.popFront_write hd d.length_le) fun _ _ hm => Chain.agreeOff_popFront hm

/-- A node is linked to the end of a chain. -/
theorem pushBack (head node : NodeIndex) :
    PassesBy p traces note o (splice fun a m => Chain.pushBack a m head node) b := by
  have hsplice (b : Board σ) : (splice fun a m => Chain.pushBack a m head node).run b =
      (Board.extract fun a m => (Chain.pushBack a m head node).map ((), ·)).run b := by
    simp only [EStateM.run, splice, Board.extract]
    cases Chain.pushBack b.host.arena b.memory head node <;> rfl
  refine congr (fun _ _ => hsplice _) (extract (fun d hd => ?_) fun _ m hm => ?_)
  · rw [Chain.pushBack_write hd d.length_le]
    cases Chain.pushBack p.arena b.memory head node <;> rfl
  · refine Chain.agreeOff_pushBack (h := head) (n := node) ?_
    cases hpush : Chain.pushBack p.arena b.memory head node with
    | error e =>
      rw [hpush] at hm
      cases hm
    | ok m' =>
      rw [hpush] at hm
      cases hm
      rfl

/-- The address of a node does not depend on the desk. -/
theorem address (node : NodeIndex) : PassesBy p traces note o (Board.address node) b := by
  intro hb
  cases haddress : p.arena.address node with
  | error e =>
    have hrun (b : Board σ) (hb : b.Furnished p traces) : (Board.address node).run b = .error e b :=
      run_lookup_error b (by rw [hb.arena, haddress])
    rw [hrun b hb]
    exact ⟨⟨[], fun d z => hrun _ (hb.withDesk d z)⟩, fun _ _ hrun' => by cases hrun'⟩
  | ok q =>
    have hrun (b : Board σ) (hb : b.Furnished p traces) : (Board.address node).run b = .ok q b :=
      run_lookup_ok b (by rw [hb.arena, haddress])
    exact of_run (fun d z => hrun _ (hb.withDesk d z)) hb

/-! ### Loops -/

/-- A loop passes by a desk if its rounds do, on every board that they lead to. -/
theorem countRounds {round : BoardM σ Bool} {I : Board σ → Prop}
    (hround : ∀ b, I b → PassesBy p traces note o round b)
    (hkeep : ∀ b b', I b → round.run b = .ok true b' → I b') (limit counted : Nat) (hI : I b) :
    PassesBy p traces note o (Board.countRounds round limit counted) b := by
  induction limit generalizing b counted with
  | zero => exact throw _
  | succ limit ih =>
    refine (hround b hI).bind fun more b' hrun => ?_
    cases more with
    | true => exact ih (counted + 1) (hkeep b b' hI hrun)
    | false => exact pure counted

theorem drain {round : BoardM σ Bool} {I : Board σ → Prop}
    (hround : ∀ b, I b → PassesBy p traces note o round b)
    (hkeep : ∀ b b', I b → round.run b = .ok true b' → I b') (hI : I b) :
    PassesBy p traces note o (Board.drain round) b :=
  countRounds hround hkeep _ _ hI

end PassesBy

/-! ### Both kinds together -/

/-- **What works at one desk passes by the others.** -/
theorem WorksAt.passesBy {x : BoardM σ α} (hx : WorksAt p traces note o x) (ho : o ≠ o') :
    PassesBy p traces note o' x b := by
  intro hb
  obtain ⟨r, d, events, hrun⟩ := hx b hb
  have hself := hrun b hb rfl
  refine ⟨⟨events, fun d' z => ?_⟩, fun r' b' hrun' => ?_⟩
  · have hdesk := desk_withDesk_of_ne (b := b) (d := d') (z := z) hb.valid ho.symm
    rw [hrun _ (hb.withDesk d' z) hdesk, hself, mapEnd, withDesk_comm hb.valid ho.symm]
    rfl
  · rw [hself] at hrun'
    cases hrun'
    exact hb.withDesk d _

end Board

end InterCore
