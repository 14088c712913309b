import ExecContext.Proofs.Interleaving.LockState

set_option autoImplicit false

/-!
# Every use obeys the rules

One lemma for each part that the uses are built of: the log, the probe of the kernel, the backends,
the schedulers and the operations of a resolver. Each says which locks the thread may hold already.
-/

namespace ExecContext

variable {u : Use} {φ : LockState}

/-! ## The log -/

theorem tidy_load (h : φ.Under 2) : Tidy u (fun _ φ' => φ'.loaded = true) Log.load φ := by
  have hbelow : φ.Below (.cell .settings) := h
  rw [load_eq_get]
  refine (Tidy.get hbelow fun φ' hlocks => ?_).mono fun _ _ hloaded => hloaded rfl
  have hhead (φ'' : LockState) (hsame : φ''.locks = φ'.locks) :
      φ''.locks.head? = some (.cell .settings) := by
    rw [hsame, hlocks]
    rfl
  refine Tidy.call trivial (fun _ => rfl) rfl fun level => ?_
  refine Tidy.call trivial (fun _ => rfl) rfl fun flush => ?_
  refine Tidy.call (Or.inl (hhead _ ?_)) (fun _ => rfl) rfl fun _ => ?_
  · rw [LockState.locks_of_extend rfl, LockState.locks_of_extend rfl]
  exact Tidy.call trivial (fun _ => rfl) rfl fun _ => Tidy.done trivial

theorem tidy_currentLevel (h : φ.Under 2) :
    Tidy u (fun level φ' => φ'.limit = some level) Log.currentLevel φ :=
  (tidy_load h).bind fun _ _ _ hloaded =>
    Tidy.call hloaded (fun _ => rfl) rfl fun _ => Tidy.done rfl

theorem tidy_setLevel (h : φ.Under 2) {level : Log.Level} (hu : u = .service (.setLevel level)) :
    Tidy u Anywhere (Log.setLevel level) φ :=
  (tidy_load h).bind fun _ _ _ hloaded =>
    Tidy.call (Or.inr ⟨hloaded, hu⟩) (fun _ => rfl) rfl fun _ => Tidy.done trivial

theorem tidy_setFlush (h : φ.Under 2) (flush : Bool) : Tidy u Anywhere (Log.setFlush flush) φ :=
  (tidy_load h).bind fun _ _ _ _ =>
    Tidy.call trivial (fun _ => rfl) rfl fun _ => Tidy.done trivial

theorem tidy_isEnabled (h : φ.Under 2) (level : Log.Level) :
    Tidy u (fun yes φ' => yes = true → ∃ limit, φ'.limit = some limit ∧ level ≤ limit)
      (Log.isEnabled level) φ := by
  unfold Log.isEnabled
  split
  · exact Tidy.done fun heq => by cases heq
  · refine (tidy_currentLevel h).bind fun limit φ' _ hlimit => Tidy.done fun heq => ?_
    exact ⟨limit, hlimit, of_decide_eq_true heq⟩

/-- What is done with a record while the log is held. -/
def Log.Record.writing (r : Log.Record) : Action Unit := do
  Log.put (.header r.level r.tag)
  Log.put (.message r.message)
  Log.put .newline
  if ← .call Access.loadFlush .done then
    .call Access.flushLog .done

theorem writeRecord_eq (r : Log.Record) :
    Log.writeRecord r =
      .call Access.lockLog fun _ => r.writing >>= fun _ => .call Access.unlockLog .done := by
  have hflush (flush : Bool) :
      ((if flush = true then .call Access.flushLog .done else pure () : Action Unit) >>= fun _ =>
          .call Access.unlockLog .done) =
        if flush = true then .call Access.flushLog fun _ => .call Access.unlockLog .done
        else .call Access.unlockLog .done := by
    cases flush <;> rfl
  simp only [Log.writeRecord, Log.Record.writing, Log.put, Program.call_bind, Program.done_bind,
    hflush]

theorem path_writing {r : Log.Record} {made : List Accesses.Exchange}
    {result : Except Cause Unit} (h : r.writing.Path made (.ended result)) :
    ∃ flush, made = r.written flush ∧ result = .ok () := by
  obtain ⟨_, made₁, rfl, h₁⟩ := Program.path_call_ended.mp h
  obtain ⟨_, made₂, rfl, h₂⟩ := Program.path_call_ended.mp h₁
  obtain ⟨_, made₃, rfl, h₃⟩ := Program.path_call_ended.mp h₂
  obtain ⟨flush, made₄, rfl, h₄⟩ := Program.path_call_ended.mp h₃
  have hdone {more : List Accesses.Exchange}
      (hmore : (Program.done () : Action Unit).Path more (.ended result)) :
      more = [] ∧ result = .ok () := by
    obtain ⟨hnil, hresult⟩ := Program.path_done.mp hmore
    cases result <;> cases hresult
    exact ⟨hnil, rfl⟩
  cases flush with
  | false =>
    obtain ⟨rfl, hresult⟩ := hdone h₄
    exact ⟨false, rfl, hresult⟩
  | true =>
    obtain ⟨_, made₅, rfl, h₅⟩ := Program.path_call_ended.mp h₄
    obtain ⟨rfl, hresult⟩ := hdone h₅
    exact ⟨true, rfl, hresult⟩

/-- The chunks of a record may be written by a thread that holds the log and has read a level that
admits them. -/
theorem tidy_writing (hhead : φ.locks.head? = some .log) {r : Log.Record} {limit : Log.Level}
    (hlimit : φ.limit = some limit) (hr : r.level ≤ limit) : Tidy u Anywhere r.writing φ := by
  have hput (φ' : LockState) (hlocks : φ'.locks = φ.locks) : φ'.locks.head? = some .log := by
    rw [hlocks]
    exact hhead
  refine Tidy.call ⟨hhead, fun level tag heq => ?_⟩ (fun _ => rfl) rfl fun _ => ?_
  · cases heq
    exact ⟨limit, hlimit, hr⟩
  refine Tidy.call ⟨hput _ ?_, fun _ _ heq => by cases heq⟩ (fun _ => rfl) rfl fun _ => ?_
  · rw [LockState.locks_of_extend rfl]
  refine Tidy.call ⟨hput _ ?_, fun _ _ heq => by cases heq⟩ (fun _ => rfl) rfl fun _ => ?_
  · rw [LockState.locks_of_extend rfl, LockState.locks_of_extend rfl]
  refine Tidy.call trivial (fun _ => rfl) rfl fun flush => ?_
  cases flush with
  | false => exact Tidy.done trivial
  | true =>
    refine Tidy.call (hput _ ?_) (fun _ => rfl) rfl fun _ => Tidy.done trivial
    rw [LockState.locks_of_extend rfl, LockState.locks_of_extend rfl, LockState.locks_of_extend rfl,
      LockState.locks_of_extend rfl]

/-- A record is whole when its writer gives the log back. -/
theorem tidy_writeRecord (h : φ.Under 3) {r : Log.Record} {limit : Log.Level}
    (hlimit : φ.limit = some limit) (hr : r.level ≤ limit) :
    Tidy u Anywhere (Log.writeRecord r) φ := by
  rw [writeRecord_eq]
  intro hfollows
  refine obeys_call h hfollows.onPath fun answer => ?_
  have hinside {made : List Accesses.Exchange} {rest : Action Unit}
      (hpath : r.writing.Path made rest) :
      Program.Path (.call Access.lockLog fun _ => r.writing >>= fun _ =>
          .call Access.unlockLog .done) (⟨.lockLog, answer⟩ :: made)
        (rest >>= fun _ => .call Access.unlockLog .done) :=
    ⟨_, rfl, hpath.bind _⟩
  have hbegun : Follows (φ.record .lockLog answer).holds r.writing := by
    refine Follows.taken ?_ fun c hc => by cases hc
    exact (hfollows.extend (hinside (show r.writing.Path [] _ from rfl))).of_bind
  refine Discipline.Obeys.bind (Discipline.Obeys.mono (tidy_writing rfl hlimit hr hbegun) ?_)
  rintro φ₂ result ⟨⟨made, hpath, hholds⟩, hloaded, -⟩
  replace hholds : φ₂.holds = ⟨.log, made⟩ :: φ.extend (⟨.lockLog, answer⟩ :: made) := by
    rw [hholds]
    simp [LockState.extend, LockState.record, Access.takes?, Hold.extend]
  have hkept (hφ : φ.loaded = true) : φ₂.loaded = true :=
    hloaded (by simp [LockState.record, hφ])
  obtain ⟨flush, rfl, rfl⟩ := path_writing hpath
  refine obeys_call ⟨r, flush, by rw [hholds]; rfl⟩ (fun c inside hmem => ?_) fun done => ?_
  · rw [hholds] at hmem
    rcases List.mem_cons.mp hmem with heq | hmem
    · cases heq
    · exact (hfollows.extend (hinside hpath)).onPath c inside hmem
  · refine ⟨⟨_, (hinside hpath).concat done, ?_⟩, fun hφ => ?_, fun _ _ => trivial⟩
    · simp [LockState.record, Access.takes?, Access.leaves?, LockState.extend, hholds, Hold.extend]
    · simp [LockState.record, hkept hφ]

theorem tidy_write (h : φ.Under 2) (level : Log.Level) (message : Log.Message) :
    Tidy u Anywhere (Log.write level message) φ := by
  refine (tidy_isEnabled h level).bind fun yes φ₁ hlocks hyes => ?_
  cases yes with
  | false => exact Tidy.done trivial
  | true =>
    obtain ⟨limit, hlimit, hle⟩ := hyes rfl
    have hunder : φ₁.Under 3 := (h.of_locks hlocks).mono (by decide)
    refine Tidy.call trivial (fun _ => rfl) rfl fun tag => ?_
    refine tidy_writeRecord (hunder.of_locks (LockState.locks_of_extend rfl)) ?_ hle
    exact hlimit

/-! ## The kernel -/

theorem tidy_reportedBase (h : φ.Under 2) (release : Except Kernel.ProbeFailure String) :
    Tidy u Anywhere (Kernel.reportedBase release) φ :=
  (tidy_write h _ _).bind fun _ _ _ _ => Tidy.done trivial

theorem tidy_processBase (h : φ.Under 1) : Tidy u Anywhere Kernel.processBase φ := by
  have hbelow : φ.Below (.cell .slotBase) := h
  rw [processBase_eq_get]
  refine (Tidy.get hbelow fun φ₁ hlocks => ?_).mono fun _ _ _ => trivial
  have hunder : φ₁.Under 2 := LockState.Under.cons hbelow (by decide) hlocks
  refine Tidy.call trivial (fun _ => rfl) rfl fun reply => ?_
  exact tidy_reportedBase (hunder.of_locks (LockState.locks_of_extend rfl)) _

/-! ## Keys -/

theorem tidy_failWith {α : Type} (h : φ.Under 2) (failure : StorageFailure) :
    Tidy u (Anywhere (α := α)) (Storage.failWith failure) φ :=
  (tidy_write h _ _).bind fun _ _ _ _ => Tidy.fail

theorem tidy_createKey (h : φ.Under 2) : Tidy u Anywhere Storage.createKey φ := by
  refine Tidy.call trivial (fun _ => rfl) rfl fun answer => ?_
  have hunder : (φ.record .createKey answer).Under 2 := h.of_locks (LockState.locks_of_extend rfl)
  cases answer with
  | ok key => exact (tidy_write hunder _ _).bind fun _ _ _ _ => Tidy.done trivial
  | error code => exact tidy_failWith hunder _

theorem tidy_storeBehind (h : φ.Under 2) (key : Key) (p : Pointer) :
    Tidy u Anywhere (Storage.storeBehind key p) φ := by
  refine Tidy.call trivial (fun _ => rfl) rfl fun code => ?_
  change Tidy u Anywhere (if code = 0 then pure () else Storage.failWith (.notStored code)) _
  split
  · exact Tidy.done trivial
  · exact tidy_failWith (h.of_locks (LockState.locks_of_extend rfl)) _

theorem tidy_processKey (h : φ.Under 0) : Tidy u Anywhere Storage.processKey φ := by
  have hbelow : φ.Below (.cell .key) := h
  rw [processKey_eq_get]
  refine (Tidy.get hbelow fun φ₁ hlocks => ?_).mono fun _ _ _ => trivial
  exact tidy_createKey (LockState.Under.cons hbelow (by decide) hlocks)

theorem tidy_directSlot (h : φ.Under 0) : Tidy u Anywhere Storage.directSlot φ := by
  have hbelow : φ.Below (.cell .direct) := h
  rw [directSlot_eq_get]
  refine (Tidy.get hbelow fun φ₁ hlocks => ?_).mono fun _ _ _ => trivial
  have hunder : φ₁.Under 1 := LockState.Under.cons hbelow (by decide) hlocks
  refine (tidy_processBase hunder).bind fun base φ₂ hlocks₂ _ => ?_
  have hunder₂ : φ₂.Under 2 := (hunder.of_locks hlocks₂).mono (by decide)
  refine (tidy_createKey hunder₂).bind fun key φ₃ hlocks₃ _ => ?_
  exact (tidy_write (hunder₂.of_locks hlocks₃) _ _).bind fun _ _ _ _ => Tidy.done trivial

/-! ## Backends -/

theorem tidy_hold (h : φ.Under 0) (p : Pointer) (b : Backend) :
    Tidy u Anywhere (b.hold p) φ := by
  have hunder {φ' : LockState} (hlocks : φ'.locks = φ.locks) : φ'.Under 2 :=
    (h.of_locks hlocks).mono (by decide)
  cases b with
  | native => exact Tidy.call trivial (fun _ => rfl) rfl fun _ => Tidy.done trivial
  | key =>
    exact (tidy_processKey h).bind fun k φ₁ hlocks _ => tidy_storeBehind (hunder hlocks) k p
  | direct =>
    exact (tidy_directSlot h).bind fun slot φ₁ hlocks _ =>
      tidy_storeBehind (hunder hlocks) slot.key p
  | spy =>
    refine Tidy.call trivial (fun _ => rfl) rfl fun _ => ?_
    exact Tidy.call trivial (fun _ => rfl) rfl fun _ => Tidy.done trivial

theorem tidy_held (b : Backend) : Tidy u Anywhere b.held φ := by
  cases b with
  | native => exact Tidy.call trivial (fun _ => rfl) rfl fun _ => Tidy.done trivial
  | key =>
    refine Tidy.call trivial (fun _ => rfl) rfl fun k? => ?_
    cases k? with
    | none => exact Tidy.done trivial
    | some k => exact Tidy.call trivial (fun _ => rfl) rfl fun _ => Tidy.done trivial
  | direct =>
    refine Tidy.call trivial (fun _ => rfl) rfl fun slot? => ?_
    cases slot? with
    | none => exact Tidy.done trivial
    | some slot => exact Tidy.call trivial (fun _ => rfl) rfl fun _ => Tidy.done trivial
  | spy =>
    refine Tidy.call trivial (fun _ => rfl) rfl fun _ => ?_
    exact Tidy.call trivial (fun _ => rfl) rfl fun _ => Tidy.done trivial

/-! ## Schedulers -/

/-- A scheduler that keeps an activity is asked for it while the request is observed. -/
theorem tidy_observed {α : Type} (q : Resolver.Query) {next : Action α}
    (h : ∀ φ, Tidy u Anywhere next φ) :
    Tidy u Anywhere (.call (Access.observe q) fun _ => next) φ :=
  Tidy.call trivial (fun _ => rfl) rfl fun _ => h _

theorem tidy_ownsThread (sched : Scheduler) : Tidy u Anywhere sched.ownsThread φ := by
  have hasked : Tidy u Anywhere (.call (Access.observe .ownsThread) fun _ =>
      .call (Access.activity sched) fun a => .done a.active) φ :=
    tidy_observed _ fun _ => Tidy.call trivial (fun _ => rfl) rfl fun _ => Tidy.done trivial
  unfold Scheduler.ownsThread
  cases sched.kind with
  | absent => exact Tidy.done trivial
  | constant f => exact Tidy.done trivial
  | perThread => exact hasked
  | shared => exact hasked

theorem tidy_runningFiber (sched : Scheduler) : Tidy u Anywhere sched.runningFiber φ := by
  have hasked : Tidy u Anywhere (.call (Access.observe .runningFiber) fun _ =>
      .call (Access.activity sched) fun a => .done a.fiber) φ :=
    tidy_observed _ fun _ => Tidy.call trivial (fun _ => rfl) rfl fun _ => Tidy.done trivial
  unfold Scheduler.runningFiber
  cases sched.kind with
  | absent => exact Tidy.done trivial
  | constant f => exact Tidy.done trivial
  | perThread => exact hasked
  | shared => exact hasked

theorem tidy_contextOf (sched : Scheduler) (f : Fiber) : Tidy u Anywhere (sched.contextOf f) φ := by
  have hasked :
      Tidy u Anywhere (.call (Access.observe (.contextOf f)) fun _ => .done f.context) φ :=
    tidy_observed _ fun _ => Tidy.done trivial
  unfold Scheduler.contextOf
  cases sched.kind with
  | absent => exact Tidy.done trivial
  | constant f => exact Tidy.done trivial
  | perThread => exact hasked
  | shared => exact hasked

/-! ## Resolvers -/

theorem tidy_answer (h : φ.Under 0) (r : Resolver) (q : Resolver.Query) :
    Tidy u Anywhere (r.answer q) φ := by
  cases q with
  | ownsThread => exact tidy_ownsThread r.scheduler
  | runningFiber => exact tidy_runningFiber r.scheduler
  | contextOf f => exact tidy_contextOf r.scheduler f
  | held => exact tidy_held r.backend
  | hold p => exact tidy_hold h p r.backend
  | announce address => exact tidy_write (h.mono (by decide)) _ _

/-- Any operation of a resolver is tidy for a thread that holds nothing. -/
theorem tidy_perform {α : Type} (h : φ.Under 0) (r : Resolver) (operation : Resolver.Operation α) :
    Tidy u Anywhere (r.perform operation) φ := by
  induction operation generalizing φ with
  | done value => exact Tidy.done trivial
  | fail cause => exact Tidy.fail
  | call q resume ih =>
    exact (tidy_answer h r q).bind fun answer φ' hlocks _ => ih answer (h.of_locks hlocks)

theorem tidy_countCalls (h : φ.Under 0) (r : Resolver) (amount : Int64) :
    Tidy u Anywhere (r.countCalls amount) φ := by
  refine (tidy_perform h r _).bind fun address φ' _ _ => ?_
  cases address with
  | context c => exact Tidy.call trivial (fun _ => rfl) rfl fun _ => Tidy.done trivial
  | foreign word => exact Tidy.done trivial

/-! ## Uses -/

theorem tidy_reschedule (r : Resolver) (change : Activity → Activity) :
    Tidy u Anywhere (Session.reschedule r change) φ := by
  have hchanged : Tidy u Anywhere (.call (Access.activity r.scheduler) fun a =>
      .call (Access.setActivity r.scheduler (change a)) fun _ =>
        .done (Session.Answer.applied true)) φ :=
    Tidy.call trivial (fun _ => rfl) rfl fun _ =>
      Tidy.call trivial (fun _ => rfl) rfl fun _ => Tidy.done trivial
  unfold Session.reschedule
  cases r.scheduler.kind with
  | absent => exact Tidy.done trivial
  | constant f => exact Tidy.done trivial
  | perThread => exact hchanged
  | shared => exact hchanged

theorem tidy_call (h : φ.Under 0) (contexts : List String) (r : Resolver) (c : Session.Call) :
    Tidy u Anywhere (c.action contexts r) φ := by
  have hperform {α : Type} (operation : Resolver.Operation α) (answer : α → Session.Answer) :
      Tidy u Anywhere (r.perform operation >>= fun value => .done (answer value)) φ :=
    (tidy_perform h r operation).bind fun _ _ _ _ => Tidy.done trivial
  cases c with
  | bind c => exact hperform _ _
  | bindAddress c => exact hperform _ _
  | unbind => exact hperform _ _
  | current => exact hperform _ _
  | current? => exact hperform _ _
  | countCalls amount =>
    refine (tidy_countCalls h r amount).bind fun counted φ' _ _ => ?_
    split <;> exact Tidy.done trivial
  | resolve => exact hperform _ _
  | hold p => exact hperform _ _
  | held => exact hperform _ _
  | backendName => exact Tidy.done trivial
  | ownsThread => exact hperform _ _
  | runningFiber =>
    refine (tidy_perform h r _).bind fun f? φ' hlocks _ => ?_
    cases f? with
    | none => exact Tidy.done trivial
    | some f =>
      exact (tidy_perform (h.of_locks hlocks) r _).bind fun _ _ _ _ => Tidy.done trivial
  | enter c => exact tidy_reschedule r _
  | leave => exact tidy_reschedule r _
  | setActive active => exact tidy_reschedule r _
  | setFiber c => exact tidy_reschedule r _

theorem tidy_service (h : φ.Under 0) (service : Session.Service) :
    Tidy (.service service) Anywhere service.action φ := by
  have hunder : φ.Under 2 := h.mono (by decide)
  have hreturn {α : Type} {Q : α → LockState → Prop} {p : Action α}
      (hp : Tidy (.service service) Q p φ) (answer : α → Session.Answer) :
      Tidy (.service service) Anywhere (p >>= fun value => .done (answer value)) φ :=
    hp.bind fun _ _ _ _ => Tidy.done trivial
  cases service with
  | log level text => exact hreturn (tidy_write hunder level _) _
  | setLevel level => exact hreturn (tidy_setLevel hunder rfl) _
  | setFlush flush => exact hreturn (tidy_setFlush hunder flush) _
  | load => exact hreturn (tidy_load hunder) _
  | currentLevel => exact hreturn (tidy_currentLevel hunder) _
  | isEnabled level => exact hreturn (tidy_isEnabled hunder level) _
  | environmentSettings =>
    refine Tidy.call trivial (fun _ => rfl) rfl fun _ => ?_
    exact Tidy.call trivial (fun _ => rfl) rfl fun _ => Tidy.done trivial
  | processBase => exact hreturn (tidy_processBase (h.mono (by decide))) _
  | askRelease =>
    have hask : Tidy (.service .askRelease) Anywhere Kernel.askRelease φ :=
      Tidy.call trivial (fun _ => rfl) rfl fun _ => Tidy.done trivial
    refine hask.bind fun release _ _ _ => ?_
    cases release with
    | ok text => exact Tidy.done trivial
    | error e => exact Tidy.done trivial
  | reportedBase release => exact hreturn (tidy_reportedBase hunder release) _

/-- A thread that holds nothing may make any use. -/
theorem tidy_action (h : φ.Under 0) (u : Use) : Tidy u Anywhere u.action φ := by
  cases u with
  | service s => exact tidy_service h s
  | call contexts r c => exact tidy_call h contexts r c

end ExecContext
