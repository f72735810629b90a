import HuaDB.Sql.Conflicts
import HuaDB.Sql.Views

/-!
The engine does what its statements are for.

`Database.model` forgets everything but what the transactions find: the tables that have
been committed, and how each transaction sees them. A statement is a step of the model
(`executeSql_steps`), and so all that a run of statements returns, whatever their order
and whichever the isolation levels, is what the model can return (`run_refines`).
-/

namespace HuaDB

noncomputable def Database.model (σ : Database) : Model where
  committed := σ.mvcc.content
  own conn := (σ.xids.find? conn).map σ.session
  level := Sql.levelOf σ

namespace Sql

open EStateM

variable {σ σ₀ σ' : Database} {conn x : Nat} {stmt : Statement}

/-! ## Transactions -/

theorem committed_model (σ : Database) : σ.model.committed = σ.mvcc.content := rfl

theorem own_model (σ : Database) (conn : Nat) :
    σ.model.own conn = (σ.xids.find? conn).map σ.session := rfl

theorem level_model (σ : Database) : σ.model.level = levelOf σ := rfl

theorem own_of_conn (hconn : σ.xids.find? conn = some x) :
    σ.model.own conn = some (σ.session x) := by
  rw [own_model, hconn, Option.map_some]

theorem levelOf_congr (h : σ'.isolationLevels = σ.isolationLevels) : levelOf σ' = levelOf σ := by
  funext c
  rw [levelOf, levelOf, h]

/-- A statement of `x` changes what its connection finds. -/
theorem Private.model (h : Private x σ σ') (ok : TxnOk σ) (hconn : σ.xids.find? conn = some x) :
    σ'.model = { σ.model.setOwn conn (some (σ'.session x)) with level := levelOf σ' } := by
  apply Model.ext
  · exact h.content
  · funext c
    have hown : σ'.model.own c = (σ.model.setOwn conn (some (σ'.session x))).own c := by
      rw [Model.own_setOwn, own_model, own_model, h.xids]
      by_cases hc : c = conn
      · rw [if_pos hc, hc, hconn, Option.map_some]
      · rw [if_neg hc]
        cases hy : σ.xids.find? c with
        | none => rw [Option.map_none, Option.map_none]
        | some y =>
            have hne : y ≠ x := fun heq => hc (ok.unique x c conn (heq ▸ hy) hconn)
            rw [Option.map_some, Option.map_some, h.others y (ok.active_of_conn hy) hne]
    exact hown
  · rfl

theorem Private.model_of_levels (h : Private x σ σ') (ok : TxnOk σ)
    (hconn : σ.xids.find? conn = some x) (levels : σ'.isolationLevels = σ.isolationLevels) :
    σ'.model = σ.model.setOwn conn (some (σ'.session x)) := by
  rw [h.model ok hconn, levelOf_congr levels]
  rfl

section Begun

variable (sound : Sound σ) (inv : Mvcc.Inv σ.mvcc) (hnext : σ.txn.nextXid < nullXid)
include sound inv hnext

theorem model_begun (conn : Nat) :
    (begun conn σ).model =
      σ.model.setOwn conn (some ⟨σ.model.committed, σ.model.committed⟩) := by
  have hmvcc : (begun conn σ).mvcc = σ.mvcc.begin := mvcc_begun hnext
  apply Model.ext
  · funext oid
    rw [Database.model, hmvcc]
    exact Mvcc.content_begin inv oid
  · funext c
    rw [Model.own_setOwn, own_model, own_model, begun]
    by_cases hc : c = conn
    · rw [if_pos hc, hc, Assoc.find?_insert_self, Option.map_some]
      have hview : ∀ mode, (begun conn σ).tablesOf mode σ.txn.nextXid = σ.model.committed := by
        intro mode
        funext oid
        rw [Database.tablesOf, hmvcc]
        exact Mvcc.view_begin inv mode oid
      apply congrArg some
      rw [← begun, Database.session, hview, hview]
    · rw [if_neg hc, Assoc.find?_insert_ne (Ne.symm hc)]
      cases hy : σ.xids.find? c with
      | none => rw [Option.map_none, Option.map_none]
      | some y =>
          rw [Option.map_some, Option.map_some]
          apply congrArg some
          apply session_eq
          intro mode
          funext oid
          rw [← begun, Database.tablesOf, hmvcc]
          exact Mvcc.view_begin_of_active inv (sound.txn.active_of_conn hy) mode oid
  · rfl

end Begun

section Ended

variable (sound : Sound σ) (inv : Mvcc.Inv σ.mvcc) (hconn : σ.xids.find? conn = some x)
include sound inv hconn

omit inv in
/-- What another connection finds than the one that ended its transaction. -/
theorem own_ended (own' : Option Session → Option Session) (hnone : own' none = none)
    (hxids : σ'.xids = σ.xids.erase conn)
    (hothers : ∀ c y, c ≠ conn → y ≠ x → σ.xids.find? c = some y →
      some (σ'.session y) = own' (some (σ.session y))) (c : Nat) :
    σ'.model.own c = if c = conn then none else own' (σ.model.own c) := by
  rw [own_model, own_model, hxids]
  by_cases hc : c = conn
  · rw [if_pos hc, hc, Assoc.find?_erase_self]
    rfl
  · rw [if_neg hc, Assoc.find?_erase_ne (Ne.symm hc)]
    cases hy : σ.xids.find? c with
    | none => exact hnone.symm
    | some y =>
        have hne : y ≠ x := fun heq => hc (sound.txn.unique x c conn (heq ▸ hy) hconn)
        exact hothers c y hc hne hy

/-- COMMIT puts what the transaction finds of the current state in the place of what had
been committed. -/
theorem model_committed :
    (ended conn x (.committed x) σ).model = σ.model.publish conn (σ.session x).current := by
  have hmvcc : (ended conn x (.committed x) σ).mvcc = σ.mvcc.finish x (.committed x) :=
    mvcc_ended conn rfl
  apply Model.ext
  · funext oid
    rw [Database.model, hmvcc]
    exact Mvcc.content_commit _ _ _ _
  · funext c
    rw [Model.own_publish]
    apply own_ended sound hconn (Option.map _) rfl rfl
    intro c y _ hne _
    rw [Option.map_some]
    apply congrArg some
    apply Session.ext
    · funext oid
      have hview := Mvcc.view_commit_snapshot σ.mvcc hne (.committed x) oid
      rw [← hmvcc] at hview
      exact hview
    · funext oid
      have hview := Mvcc.view_commit inv hne (.committed x) oid
      rw [← hmvcc] at hview
      exact eq_tsub_of_add_eq hview
  · rfl

theorem RolledBack.model (rolledBack : RolledBack conn x σ σ') :
    σ'.model = σ.model.setOwn conn none := by
  have active := sound.txn.active_of_conn hconn
  apply Model.ext
  · funext oid
    rw [Database.model, rolledBack.mvcc]
    exact Mvcc.content_rollback inv active _ oid
  · funext c
    rw [Model.own_setOwn]
    apply own_ended sound hconn id rfl rolledBack.xids
    intro c y _ hne hy
    apply congrArg some
    apply session_eq
    intro mode
    funext oid
    rw [Database.tablesOf, rolledBack.mvcc]
    exact Mvcc.view_rollback inv active (sound.txn.active_of_conn hy) hne mode _ oid
  · exact levelOf_congr rolledBack.levels

end Ended

/-! ## Statements of a transaction -/

/-- The versions whose deleter has ended are spared, and statements are numbered. -/
abbrev spared : Mvcc.Policy Nat Rid Row := sparing (fun _ _ => True) fun _ => True

theorem spared_clean : spared.Clean := sparing_clean _ _

/-- What a statement of transaction `x` comes to that returns. -/
inductive Effect (conn x : Nat) (σ σ' : Database) : Statement → QueryResult → Prop
  | query {query : Query} {result : QueryResult} {change : Option Change}
      (levels : σ'.isolationLevels = σ.isolationLevels)
      (denotes : query.Denotes (σ.tablesOf (levelOf σ conn).mode x) result change)
      (makes : (σ.session x).Makes (levelOf σ conn).mode change (σ'.session x)) :
      Effect conn x σ σ' (.query (.ok query)) result
  | setLevel {level : IsolationLevel}
      (levels : σ'.isolationLevels = σ.isolationLevels.insert conn level)
      (session : σ'.session x = σ.session x) :
      Effect conn x σ σ' (.setIsolationLevel level) (.rows [])
  | other {stmt : Statement} (other : stmt.isOther)
      (levels : σ'.isolationLevels = σ.isolationLevels) (session : σ'.session x = σ.session x) :
      Effect conn x σ σ' stmt (.rows [])

/-- What a statement of transaction `x` has done that returns. -/
structure Performs (conn : Nat) (stmt : Statement) (result : QueryResult) (x : Nat)
    (σ σ' : Database) : Prop where
  leads : Leads spared σ σ'
  keeps : Private x σ σ'
  effect : PagesFree σ' → Effect conn x σ σ' stmt result

/-- What is left of one that throws. -/
def Errs (stmt : Statement) (x : Nat) (σ : Database) (e : SqlError) (σ' : Database) : Prop :=
  ∀ ex, e = .thrown ex → Leads spared σ σ' ∧ Tears stmt x σ σ'

theorem Errs.refl (sound : Sound σ) (e : SqlError) : Errs stmt x σ e σ :=
  fun _ _ => ⟨.refl _ sound, .refl x σ, rfl, fun _ _ _ => rfl⟩

/-- What is not planned leaves the tables. -/
theorem performs_of_reads (sound : Sound σ) (hother : stmt.isOther) (reads : Reads σ σ') :
    Performs conn stmt (.rows []) x σ σ' where
  leads := ⟨reads.sound sound, reads.steps _⟩
  keeps := (reads.keeps_session x).1
  effect _ := .other hother (by rw [reads.frame]) (reads.keeps_session x).2

theorem numbered_keeps (active : x ∈ σ.mvcc.active) (c : Nat) :
    Private x σ (numbered x c σ) ∧ (numbered x c σ).session x = σ.session x := by
  have hnumbered := mvcc_numbered active c
  apply private_of_versions
  · rw [hnumbered]
  · rw [hnumbered]
  · rw [hnumbered]
  · rfl
  · rfl

section Transaction

variable (sound : Sound σ) (inv : Mvcc.Inv σ.mvcc) (counted : Mvcc.Counted spared σ.mvcc)
  (hconn : σ.xids.find? conn = some x)
include sound inv counted hconn

omit inv in
/-- No row has the number of the statement that comes next. -/
theorem fresh_numbered (c : Nat) : Fresh (contextOf σ conn x) (numbered x c σ) := by
  intro oid v hv hxmin hcid
  have hxmin : v.xmin = x := hxmin
  have active : v.xmin ∈ σ.mvcc.active := hxmin ▸ sound.txn.active_of_conn hconn
  have hlt : v.cid < σ.mvcc.cid v.xmin := counted oid v hv trivial active
  rw [hxmin, hcid] at hlt
  exact Nat.lt_irrefl _ hlt

theorem query_acts (fuel : Nat) {query : Query}
    (permits : Permits spared conn (.query (.ok query)) σ) :
    Ends σ (DatabaseEngine.query conn fuel (.ok query))
      (fun result σ' => Acts query result x (levelOf σ conn).mode σ σ')
      fun e σ' => ∀ ex, e = .thrown ex → Tears (.query (.ok query)) x σ σ' := by
  have active := sound.txn.active_of_conn hconn
  apply Ends.bind_of_ok rfl
  apply Ends.get_bind
  apply Ends.bind_of_ok (xidOf_eq hconn)
  apply Ends.bind_of_ok (getCidAndIncrement_eq active)
  have permitted := permits.query sound hconn
  have hnumbered := mvcc_numbered active ((σ.mvcc.cid x + 1) % 2 ^ 32)
  obtain ⟨hprivate, hsession⟩ := numbered_keeps active ((σ.mvcc.cid x + 1) % 2 ^ 32)
  have inv₀ : Mvcc.Inv (numbered x ((σ.mvcc.cid x + 1) % 2 ^ 32) σ).mvcc := by
    rw [hnumbered]
    exact inv.step (P := spared) (.count active fun h => permits.up hconn h)
  have hquery := executeQuery_acts fuel (sound_numbered sound active _) inv₀ permitted.active
    (fresh_numbered sound counted hconn _) spared_clean permitted.counts query permitted.deletes
  apply hquery.mono
  · intro result σ' h
    have acts : Acts query result x (levelOf σ conn).mode (numbered x _ σ) σ' := h
    refine ⟨hprivate.trans acts.keeps, acts.levels, fun free => ?_⟩
    obtain ⟨change, denotes, makes⟩ := acts.denotes free
    rw [← Database.read_session, hsession, Database.read_session] at denotes
    exact ⟨change, denotes, hsession ▸ makes⟩
  · intro e σ' h ex hex
    have tears : Tears (.query (.ok query)) x (numbered x _ σ) σ' := h ex hex
    refine ⟨hprivate.trans tears.keeps, tears.levels, fun mode oid hoid => ?_⟩
    rw [tears.others mode oid hoid, ← Database.read_session, hsession, Database.read_session]

theorem query_performs (fuel : Nat) {planned : Except Exception Query}
    (permits : Permits spared conn (.query planned) σ) :
    Ends σ (DatabaseEngine.query conn fuel planned)
      (fun result σ' => Performs conn (.query planned) result x σ σ')
      (Errs (.query planned) x σ) := by
  cases planned with
  | error e => exact .bind_of_error rfl (.refl sound _)
  | ok query =>
      have hleads := query_ends sound hconn fuel permits
      have hacts := query_acts sound inv counted hconn fuel permits
      apply (hacts.and hleads).mono
      · intro result σ' h
        refine ⟨h.2.toLeads, h.1.keeps, fun free => ?_⟩
        obtain ⟨change, denotes, makes⟩ := h.1.denotes free
        exact .query h.1.levels denotes makes
      · exact fun e σ' h ex hex => ⟨h.2 ex hex, h.1 ex hex⟩

/-- A statement that runs in a transaction, whose queries catch what they throw as `catches`
says. -/
theorem dispatch_performs (fuel : Nat) (permits : Permits spared conn stmt σ)
    (htransactional : transactional stmt = true) {error : SqlError → Database → Prop}
    (catches : Catches conn (Errs stmt x σ) error)
    (herrs : ∀ e σ', Errs stmt x σ e σ' → error e σ') :
    Ends σ (DatabaseEngine.dispatch conn fuel stmt)
      (fun result σ' => Performs conn stmt result x σ σ') error := by
  have hevaluate : stmt.isOther → ∀ outcome : Except Exception Unit,
      Ends σ (do evaluate outcome; return .rows [] : Sql QueryResult)
        (fun result σ' => Performs conn stmt result x σ σ') error := by
    intro hother outcome
    cases outcome with
    | error e => exact .bind_of_error rfl (herrs _ _ (.refl sound _))
    | ok => exact .bind_of_ok rfl (.pure (performs_of_reads sound hother (.refl σ)))
  cases stmt with
  | unbound | begin | commit | rollback | checkpoint => cases htransactional
  | lock lockType oid =>
      apply Ends.bind ((lock_ends hconn lockType oid).mono (fun _ _ => id) _)
      · exact fun _ σ₁ reads => .pure (performs_of_reads sound rfl reads)
      · intro e σ₁ h
        apply herrs
        intro ex hex
        have reads := h ex hex
        obtain ⟨hprivate, hsession⟩ := reads.keeps_session x
        refine ⟨⟨reads.sound sound, reads.steps _⟩, hprivate, by rw [reads.frame], ?_⟩
        intro mode oid _
        rw [← Database.read_session, hsession, Database.read_session]
  | setIsolationLevel level' =>
      apply Ends.bind_of_ok (modify_apply _ _)
      apply Ends.pure
      constructor
      · refine ⟨?_, .refl⟩
        exact ⟨sound.pages.congr rfl rfl, sound.txn.congr rfl (fun _ => Iff.rfl) rfl,
          fun y chain hchain body hbody => (sound.logged y chain hchain body hbody).mono fun _ => id⟩
      · exact ⟨rfl, rfl, fun _ _ _ => rfl, rfl, rfl⟩
      · exact fun _ => .setLevel rfl rfl
  | ddl outcome =>
      apply Ends.get_bind
      split
      · exact .bind_of_error rfl (herrs _ _ (.refl sound _))
      · exact hevaluate rfl outcome
  | utility outcome => exact hevaluate rfl outcome
  | query planned =>
      exact guarded_rule catches (query_performs sound inv counted hconn fuel permits)

end Transaction

/-! ## What is thrown -/

theorem Catches.mono {error₁ error₂ error₁' error₂' : SqlError → Database → Prop}
    (catches : Catches conn error₁ error₁') (h : ∀ e σ, error₂ e σ → error₁ e σ)
    (h' : ∀ e σ, error₁' e σ → error₂' e σ) : Catches conn error₂ error₂' where
  rollback message σ' herror hmem :=
    (catches.rollback message σ' (h _ _ herror) hmem).mono (fun _ _ => h' _ _) h'
  pass e σ' herror hnot := h' _ _ (catches.pass e σ' (h _ _ herror) hnot)

/-- In a transaction that goes on, nothing is caught. -/
theorem catches_inside (hauto : conn ∉ σ.autoTransactionSet) :
    Catches conn (Errs stmt x σ) (Errs stmt x σ) where
  rollback _ _ herror hmem := absurd ((herror _ rfl).2.keeps.auto ▸ hmem) hauto
  pass _ _ herror _ := herror

/-- What is left of an automatic transaction that has been rolled back. -/
structure Restored (conn : Nat) (σ σ' : Database) : Prop where
  leads : Leads spared σ σ'
  model : σ'.model = σ.model.setOwn conn none
  auto : σ'.autoTransactionSet = σ.autoTransactionSet.filter (· ≠ conn)

def BacksOut (conn : Nat) (σ : Database) (e : SqlError) (σ' : Database) : Prop :=
  ∀ message, e = .thrown (.dbException message) → PagesKept σ' → Restored conn σ σ'

/-- A rollback of what a statement of `x` has left. -/
theorem Tears.restored {σ'' : Database} (tears : Tears stmt x σ σ') (leads : Leads spared σ σ')
    (inv : Mvcc.Inv σ.mvcc) (sound : Sound σ) (hconn : σ.xids.find? conn = some x)
    (rolledBack : RolledBack conn x σ' σ'') : Restored conn σ (outOfAuto conn σ'') where
  leads := by
    have active := leads.sound.txn.active_of_conn (tears.keeps.xids.symm ▸ hconn)
    exact (leads.trans (rolledBack.leads active)).outOfAuto conn
  model := by
    have hmodel :=
      rolledBack.model leads.sound (inv.steps leads.steps) (tears.keeps.xids.symm ▸ hconn)
    have hsame : (outOfAuto conn σ'').model = σ''.model := rfl
    rw [hsame, hmodel, tears.keeps.model_of_levels sound.txn hconn tears.levels, Model.setOwn_setOwn]
  auto := by
    have hauto : (outOfAuto conn σ'').autoTransactionSet = σ''.autoTransactionSet.filter (· ≠ conn) :=
      rfl
    rw [hauto, rolledBack.auto, tears.keeps.auto]

theorem catches_auto (sound : Sound σ) (inv : Mvcc.Inv σ.mvcc) (hconn : σ.xids.find? conn = some x)
    (hauto : conn ∈ σ.autoTransactionSet) :
    Catches conn (fun e σ' => Errs stmt x σ e σ' ∨ BacksOut conn σ e σ') (BacksOut conn σ) where
  rollback message σ₁ herror hmem := by
    have hundone : .undoneNewPage ∈ σ₁.events →
        Ends σ₁ (DatabaseEngine.rollback conn)
          (fun _ σ₂ => BacksOut conn σ (.thrown (.dbException message)) (outOfAuto conn σ₂))
          (BacksOut conn σ) := by
      intro hundone
      apply (rollback_events σ₁ conn).mono
      · exact fun _ _ hsub _ _ kept => absurd (hsub hundone) kept
      · exact fun _ _ hsub _ _ kept => absurd (hsub hundone) kept
    obtain herrs | hback := herror
    · obtain ⟨leads, tears⟩ := herrs _ rfl
      have hconn' := tears.keeps.xids.symm ▸ hconn
      apply (rollback_ends leads.sound (inv.steps leads.steps) hconn').mono
      · intro _ σ₂ h message' _ kept
        obtain hundone | rolledBack := h
        · exact absurd hundone kept
        · exact tears.restored leads inv sound hconn rolledBack
      · exact fun _ _ hundone _ _ kept => absurd hundone kept
    · by_cases kept : PagesKept σ₁
      · -- it is no automatic transaction any more
        have hmem' := (hback _ rfl kept).auto ▸ hmem
        exact absurd (of_decide_eq_true (List.mem_filter.mp hmem').2) (not_not.mpr rfl)
      · exact hundone (not_not.mp kept)
  pass e σ' herror hnot := by
    obtain herrs | hback := herror
    · intro message hmessage _
      have hmem : conn ∈ σ'.autoTransactionSet := by
        rw [(herrs _ hmessage).2.keeps.auto]
        exact hauto
      exact absurd hmem (hnot message hmessage)
    · exact hback

/-! ## `ExecuteSql` -/

/-- The statement deletes no version whose deleter has ended and has a number, on tables
that have pages left. -/
structure Orderly (conn : Nat) (stmt : Statement) (σ : Database) : Prop
    extends Sparing conn stmt σ where
  free : PagesFree σ

/-- What holds between two statements. -/
structure Ready (σ : Database) : Prop where
  sound : Sound σ
  inv : Mvcc.Inv σ.mvcc
  counted : Mvcc.Counted spared σ.mvcc
  auto : σ.autoTransactionSet = []

/-- The model has taken the step of a statement. -/
def Stepped (conn : Nat) (stmt : Statement) (outcome : Outcome) (σ σ' : Database) : Prop :=
  PagesKept σ' → PagesFree σ' →
    σ'.autoTransactionSet = [] ∧ Model.Step σ.model conn stmt outcome σ'.model

theorem Orderly.permits (h : Orderly conn stmt σ) (inv : Mvcc.Inv σ.mvcc) :
    Permits spared conn stmt (entered conn stmt σ) :=
  permits_sparing inv h.toNumbered h.spares fun _ _ _ _ _ => trivial

theorem setLevel_model {level : IsolationLevel}
    (h : σ'.isolationLevels = σ.isolationLevels.insert conn level) :
    levelOf σ' = Function.update (levelOf σ) conn level := by
  funext c
  rw [levelOf, h, Function.update_apply]
  by_cases hc : c = conn
  · rw [if_pos hc, hc, Assoc.find?_insert_self, Option.getD_some]
  · rw [if_neg hc, Assoc.find?_insert_ne (Ne.symm hc)]
    rfl

theorem Performs.stepped {result : QueryResult} (performs : Performs conn stmt result x σ σ')
    (ready : Ready σ) (hconn : σ.xids.find? conn = some x) :
    Stepped conn stmt (.returned result) σ σ' := by
  intro _ free
  have hmodel := performs.keeps.model ready.sound.txn hconn
  refine ⟨performs.keeps.auto.trans ready.auto, ?_⟩
  cases performs.effect free with
  | query levels denotes makes =>
      rw [performs.keeps.model_of_levels ready.sound.txn hconn levels]
      rw [← Database.read_session] at denotes
      exact .query (own_of_conn hconn) denotes makes
  | setLevel levels session =>
      rw [hmodel, session, Model.setOwn_own (own_of_conn hconn), setLevel_model levels]
      exact .setLevel _
  | other other levels session =>
      rw [performs.keeps.model_of_levels ready.sound.txn hconn levels, session,
        Model.setOwn_own (own_of_conn hconn)]
      exact .other other

theorem Tears.stepped {message : String} (tears : Tears stmt x σ σ') (ready : Ready σ)
    (hconn : σ.xids.find? conn = some x) : Stepped conn stmt (.failed message) σ σ' := by
  intro _ _
  have hmodel := tears.keeps.model_of_levels ready.sound.txn hconn tears.levels
  refine ⟨tears.keeps.auto.trans ready.auto, ?_⟩
  cases htarget : stmt.target with
  | none =>
      have hsession : σ'.session x = σ.session x := session_eq fun mode =>
        funext fun oid => tears.others mode oid fun h => Option.some_ne_none oid (h.symm.trans htarget)
      rw [hmodel, hsession, Model.setOwn_own (own_of_conn hconn)]
      exact .refused (.inr htarget)
  | some oid =>
      have htables : ∀ mode, σ'.tablesOf mode x =
          Function.update (σ.tablesOf mode x) oid (σ'.tablesOf mode x oid) := by
        intro mode
        funext o
        rw [Function.update_apply]
        by_cases ho : o = oid
        · rw [if_pos ho, ho]
        · rw [if_neg ho]
          exact tears.others mode o fun h => ho (Option.some.inj (htarget.symm.trans h)).symm
      rw [hmodel, Database.session, htables .snapshot, htables .current]
      exact .torn _ _ (own_of_conn hconn) htarget

section Statement

variable (fuel : Nat) (ready : Ready σ) (h : Orderly conn stmt σ)
include ready h

/-- A statement of a transaction that goes on. -/
theorem inside_steps (htransactional : transactional stmt = true)
    (hconn : σ.xids.find? conn = some x) :
    Ends σ (DatabaseEngine.executeInTransaction conn fuel stmt)
      (fun result σ' => Stepped conn stmt (.returned result) σ σ')
      fun e σ' => ∀ message, e = .thrown (.dbException message) →
        Stepped conn stmt (.failed message) σ σ' := by
  have hauto : conn ∉ σ.autoTransactionSet := ready.auto ▸ List.not_mem_nil
  have hentered := entered_of_conn stmt hconn
  have permits := h.permits ready.inv
  rw [hentered] at permits
  have hdispatch : Ends (entered conn stmt σ) (DatabaseEngine.dispatch conn fuel stmt)
      (fun result σ' => Performs conn stmt result x σ σ') (Errs stmt x σ) := by
    rw [hentered]
    exact dispatch_performs ready.sound ready.inv ready.counted hconn fuel permits
      htransactional (catches_inside hauto) fun _ _ => id
  have hrule : Ends σ (DatabaseEngine.executeInTransaction conn fuel stmt)
      (fun result σ' => Performs conn stmt result x σ σ') (Errs stmt x σ) :=
    executeInTransaction_rule (catches_inside hauto) ready.sound htransactional hdispatch
      (fun _ _ performs hmem => absurd (performs.keeps.auto ▸ hmem) hauto)
      fun _ _ performs _ => performs
  apply hrule.mono
  · exact fun _ _ performs => performs.stepped ready hconn
  · exact fun e σ' herrs message hmessage => (herrs _ hmessage).2.stepped ready hconn

/-- A transaction has been started for a statement. -/
structure Opens (conn x : Nat) (σ σ₁ : Database) : Prop where
  leads : Leads spared σ σ₁
  inside : σ₁.xids.find? conn = some x
  auto : σ₁.autoTransactionSet = [conn]
  model : σ₁.model = σ.model.setOwn conn (some ⟨σ.model.committed, σ.model.committed⟩)
  session : σ₁.session x = ⟨σ.model.committed, σ.model.committed⟩

theorem exists_opens (htransactional : transactional stmt = true) (hconn : σ.xids.find? conn = none) :
    ∃ x, Opens conn x σ (entered conn stmt σ) := by
  have hentered : entered conn stmt σ = { begun conn σ with
      autoTransactionSet := conn :: σ.autoTransactionSet } := if_pos ⟨htransactional, hconn⟩
  have hmodel : (entered conn stmt σ).model =
      σ.model.setOwn conn (some ⟨σ.model.committed, σ.model.committed⟩) := by
    rw [hentered]
    exact model_begun ready.sound ready.inv (h.next hconn) conn
  have hexists : ∃ x, (entered conn stmt σ).xids.find? conn = some x :=
    exists_conn_entered htransactional
  obtain ⟨x, hconnₑ⟩ := hexists
  have hown := own_of_conn hconnₑ
  rw [hmodel, Model.own_setOwn, if_pos rfl] at hown
  exact ⟨x, leads_entered ready.sound (fun _ => h.next hconn) spared stmt, hconnₑ,
    by rw [hentered, ready.auto], hmodel, (Option.some.inj hown).symm⟩

omit ready h in
theorem auto_outOfAuto {σ₂ : Database} (hauto : σ₂.autoTransactionSet = [conn]) :
    (outOfAuto conn σ₂).autoTransactionSet = [] := by
  have hfilter : (outOfAuto conn σ₂).autoTransactionSet =
      σ₂.autoTransactionSet.filter (· ≠ conn) := rfl
  rw [hfilter, hauto]
  simp

omit ready h in
/-- The statement has returned, and its transaction is committed. -/
theorem Opens.commits {σ₁ σ₂ : Database} {result : QueryResult} (opens : Opens conn x σ σ₁)
    (inv : Mvcc.Inv σ₁.mvcc) (houtside : σ.model.own conn = none)
    (performs : Performs conn stmt result x σ₁ σ₂) :
    Stepped conn stmt (.returned result) σ (outOfAuto conn (ended conn x (.committed x) σ₂)) := by
  intro _ free
  have free₂ : PagesFree σ₂ := free
  have hconn : σ₂.xids.find? conn = some x := performs.keeps.xids.symm ▸ opens.inside
  have hmodel := model_committed performs.leads.sound (inv.steps performs.leads.steps) hconn
  have hsame : (outOfAuto conn (ended conn x (.committed x) σ₂)).model =
      (ended conn x (.committed x) σ₂).model := rfl
  have txn := opens.leads.sound.txn
  refine ⟨auto_outOfAuto (performs.keeps.auto.trans opens.auto), ?_⟩
  rw [hsame, hmodel]
  cases performs.effect free₂ with
  | query levels denotes makes =>
      rw [performs.keeps.model_of_levels txn opens.inside levels, opens.model, Model.publish_setOwn,
        Model.publish_setOwn]
      rw [← Database.read_session, opens.session, Session.read_same] at denotes
      rw [opens.session] at makes
      rw [makes.current_eq]
      exact .autocommit houtside denotes
  | setLevel levels session =>
      have hlevel : levelOf σ₁ = σ.model.level := congrArg Model.level opens.model
      rw [performs.keeps.model txn opens.inside, setLevel_model levels, session, opens.session,
        opens.model, hlevel]
      rw [Model.publish_begun houtside]
      exact .setLevel _
  | other other levels session =>
      rw [performs.keeps.model_of_levels txn opens.inside levels, session, opens.session, opens.model,
        Model.publish_setOwn, Model.publish_setOwn, Model.publish_committed houtside]
      exact .other other

omit ready h in
/-- It has thrown, and its transaction is rolled back. -/
theorem Opens.backsOut {σ₁ σ₂ : Database} {message : String} (opens : Opens conn x σ σ₁)
    (houtside : σ.model.own conn = none) (restored : Restored conn σ₁ σ₂) :
    Stepped conn stmt (.failed message) σ σ₂ := by
  intro _ _
  constructor
  · rw [restored.auto, opens.auto]
    simp
  · rw [restored.model, opens.model, Model.setOwn_setOwn, Model.setOwn_own houtside]
    exact .refused (.inl houtside)

/-- A statement that a transaction is started for. -/
theorem outside_steps (htransactional : transactional stmt = true)
    (hconn : σ.xids.find? conn = none) :
    Ends σ (DatabaseEngine.executeInTransaction conn fuel stmt)
      (fun result σ' => Stepped conn stmt (.returned result) σ σ')
      fun e σ' => ∀ message, e = .thrown (.dbException message) →
        Stepped conn stmt (.failed message) σ σ' := by
  have houtside : σ.model.own conn = none := by rw [own_model, hconn, Option.map_none]
  obtain ⟨x, opens⟩ := exists_opens ready h htransactional hconn
  have inv := ready.inv.steps opens.leads.steps
  have counted := Mvcc.steps_counted ready.inv ready.counted opens.leads.steps
  have hmem : conn ∈ (entered conn stmt σ).autoTransactionSet := by
    rw [opens.auto]
    exact List.mem_singleton_self conn
  have catches : Catches conn (fun e σ' => Errs stmt x (entered conn stmt σ) e σ' ∨
      BacksOut conn (entered conn stmt σ) e σ') (BacksOut conn (entered conn stmt σ)) :=
    catches_auto opens.leads.sound inv opens.inside hmem
  have hdispatch : Ends (entered conn stmt σ) (DatabaseEngine.dispatch conn fuel stmt)
      (fun result σ' => Performs conn stmt result x (entered conn stmt σ) σ')
      fun e σ' => Errs stmt x (entered conn stmt σ) e σ' ∨ BacksOut conn (entered conn stmt σ) e σ' :=
    dispatch_performs opens.leads.sound inv counted opens.inside fuel (h.permits ready.inv)
      htransactional (catches.mono (fun _ _ => .inl) fun _ _ => .inr) fun _ _ => .inl
  have hrule : Ends σ (DatabaseEngine.executeInTransaction conn fuel stmt)
      (fun result σ' => Stepped conn stmt (.returned result) σ σ')
      (BacksOut conn (entered conn stmt σ)) := by
    apply executeInTransaction_rule catches ready.sound htransactional hdispatch
    · intro result σ₂ performs _
      have hconn₂ : σ₂.xids.find? conn = some x := performs.keeps.xids.symm ▸ opens.inside
      exact .of_eq_ok (commit_eq performs.leads.sound.txn hconn₂)
        (opens.commits inv houtside performs)
    · intro _ _ performs hnot
      exact absurd (performs.keeps.auto.symm ▸ hmem) hnot
  apply hrule.mono (fun _ _ => id)
  intro e σ' hback message hmessage kept
  exact opens.backsOut houtside (hback message hmessage kept) kept

/-- A statement is a step of the model. -/
theorem executeSql_steps :
    Ends σ (DatabaseEngine.executeSql conn fuel stmt)
      (fun result σ' => Stepped conn stmt (.returned result) σ σ')
      fun e σ' => ∀ message, e = .thrown (.dbException message) →
        Stepped conn stmt (.failed message) σ σ' := by
  have htransactional : transactional stmt = true →
      Ends σ (DatabaseEngine.executeInTransaction conn fuel stmt)
        (fun result σ' => Stepped conn stmt (.returned result) σ σ')
        fun e σ' => ∀ message, e = .thrown (.dbException message) →
          Stepped conn stmt (.failed message) σ σ' := by
    intro htransactional
    cases hconn : σ.xids.find? conn with
    | none => exact outside_steps fuel ready h htransactional hconn
    | some x => exact inside_steps fuel ready h htransactional hconn
  have hrefused : ∀ e : SqlError, stmt.target = none → ∀ message,
      e = .thrown (.dbException message) → Stepped conn stmt (.failed message) σ σ :=
    fun _ htarget _ _ _ _ => ⟨ready.auto, .refused (.inr htarget)⟩
  cases stmt with
  | unbound e => exact .throw (hrefused _ rfl)
  | checkpoint => exact .pure fun _ _ => ⟨ready.auto, .other rfl⟩
  | begin =>
      cases hconn : σ.xids.find? conn with
      | none =>
          apply Ends.bind_of_ok (begin_eq ready.sound hconn)
          refine .pure fun _ _ => ⟨ready.auto, ?_⟩
          rw [model_begun ready.sound ready.inv (h.next hconn) conn]
          exact .begin (by rw [own_model, hconn, Option.map_none])
      | some x =>
          obtain ⟨message, herror⟩ := begin_eq_error (Option.isSome_iff_exists.mpr ⟨x, hconn⟩)
          exact .bind_of_error herror (hrefused _ rfl)
  | commit =>
      cases hconn : σ.xids.find? conn with
      | none => exact .bind_of_error (bind_of_error (xidOf_eq_error hconn)) (hrefused _ rfl)
      | some x =>
          apply Ends.bind_of_ok (commit_eq ready.sound.txn hconn)
          refine .pure fun _ _ => ⟨ready.auto, ?_⟩
          rw [model_committed ready.sound ready.inv hconn]
          exact .commit (own_of_conn hconn)
  | rollback =>
      cases hconn : σ.xids.find? conn with
      | none => exact .bind_of_error (bind_of_error (xidOf_eq_error hconn)) (hrefused _ rfl)
      | some x =>
          apply Ends.bind ((rollback_ends ready.sound ready.inv hconn).mono (fun _ _ => id) _)
          · intro _ σ' hrolledBack
            refine .pure fun kept _ => ?_
            obtain hundone | rolledBack := hrolledBack
            · exact absurd hundone kept
            · rw [rolledBack.model ready.sound ready.inv hconn]
              exact ⟨rolledBack.auto.trans ready.auto, .rollback (own_of_conn hconn)⟩
          · exact fun _ _ hundone _ _ kept => absurd hundone kept
  | lock | setIsolationLevel | ddl | utility | query => exact htransactional rfl

end Statement

/-! ## Runs -/

/-- What a statement comes to and leaves, unless it throws an exception of the standard
library. -/
def outcome? : EStateM.Result SqlError Database QueryResult → Option (Outcome × Database)
  | .ok result σ => some (.returned result, σ)
  | .error (.thrown (.dbException message)) σ => some (.failed message, σ)
  | .error _ _ => none

/-- What the statements come to of a run from `σ₀` that all meet `guard` when they start. -/
inductive Trace (guard : Nat → Statement → Database → Prop) (σ₀ : Database) :
    List (Nat × Statement × Outcome) → Database → Prop
  | refl : Trace guard σ₀ [] σ₀
  | step {σ σ' : Database} {trace : List (Nat × Statement × Outcome)} {conn fuel : Nat}
      {stmt : Statement} {outcome : Outcome} : Trace guard σ₀ trace σ → guard conn stmt σ →
        outcome? (DatabaseEngine.executeSql conn fuel stmt σ) = some (outcome, σ') →
          Trace guard σ₀ (trace ++ [(conn, stmt, outcome)]) σ'

theorem settled_of_outcome {result : EStateM.Result SqlError Database QueryResult}
    {outcome : Outcome} (h : outcome? result = some (outcome, σ')) : settled result = some σ' := by
  cases result with
  | ok => exact congrArg (Option.map Prod.snd) h
  | error e =>
      cases e with
      | thrown ex =>
          cases ex with
          | dbException => exact congrArg (Option.map Prod.snd) h
          | stdException => cases h
      | memoryFault | divergence => cases h

theorem stepped_of_outcome {result : EStateM.Result SqlError Database QueryResult} {outcome : Outcome}
    {x : Sql QueryResult} (ends : Ends σ x (fun result σ' => Stepped conn stmt (.returned result) σ σ')
      fun e σ' => ∀ message, e = .thrown (.dbException message) →
        Stepped conn stmt (.failed message) σ σ')
    (hx : x σ = result) (h : outcome? result = some (outcome, σ')) :
    Stepped conn stmt outcome σ σ' := by
  cases result with
  | ok =>
      cases h
      exact ends.ok_of hx
  | error e =>
      cases e with
      | thrown ex =>
          cases ex with
          | dbException message =>
              cases h
              exact ends.error_of hx message rfl
          | stdException => cases h
      | memoryFault | divergence => cases h

/-- A step of the engine is one of the model. -/
theorem Ready.step {fuel : Nat} {outcome : Outcome} (ready : Ready σ) (h : Orderly conn stmt σ)
    (houtcome : outcome? (DatabaseEngine.executeSql conn fuel stmt σ) = some (outcome, σ'))
    (kept : PagesKept σ') (free : PagesFree σ') :
    Ready σ' ∧ Model.Step σ.model conn stmt outcome σ'.model := by
  have leads : Leads spared σ σ' := settled_leads ready.sound h.next ready.inv
    (h.permits ready.inv) (settled_of_outcome houtcome) kept
  obtain ⟨hauto, hstep⟩ :=
    stepped_of_outcome (executeSql_steps fuel ready h) rfl houtcome kept free
  exact ⟨⟨leads.sound, ready.inv.steps leads.steps,
    Mvcc.steps_counted ready.inv ready.counted leads.steps, hauto⟩, hstep⟩

theorem Started.versions (started : Started σ) (oid : Nat) : σ.mvcc.versions oid = [] := by
  simp only [Database.mvcc, started.rows, List.map_nil]

theorem Started.ready (started : Started σ) : Ready σ where
  sound := started.sound
  inv := started.inv
  counted i v hv := by
    rw [started.versions] at hv
    cases hv
  auto := started.autoTransactionSet

theorem Started.model (started : Started σ) : σ.model = Model.empty (levelOf σ) := by
  apply Model.ext
  · funext oid
    rw [committed_model, Mvcc.State.content, started.versions]
    rfl
  · funext conn
    rw [own_model, started.xids]
    rfl
  · rfl

/-- Serve a list of statements that all meet `guard` when they start, with what they come to. -/
def serveTrace (guard : Nat → Statement → Database → Prop)
    [∀ conn stmt σ, Decidable (guard conn stmt σ)] (fuel : Nat) :
    List (Nat × Statement) → Database → Option (List (Nat × Statement × Outcome) × Database)
  | [], σ => some ([], σ)
  | (conn, stmt) :: rest, σ =>
      if guard conn stmt σ then
        match outcome? (DatabaseEngine.executeSql conn fuel stmt σ) with
        | none => none
        | some (outcome, σ') =>
            (serveTrace guard fuel rest σ').map fun r => ((conn, stmt, outcome) :: r.1, r.2)
      else
        none

theorem Trace.serve {guard : Nat → Statement → Database → Prop}
    [∀ conn stmt σ, Decidable (guard conn stmt σ)] {fuel : Nat} {stmts : List (Nat × Statement)}
    {trace later : List (Nat × Statement × Outcome)} (run : Trace guard σ₀ trace σ)
    (h : serveTrace guard fuel stmts σ = some (later, σ')) : Trace guard σ₀ (trace ++ later) σ' := by
  induction stmts generalizing σ trace later with
  | nil =>
      cases h
      rw [List.append_nil]
      exact run
  | cons entry rest ih =>
      obtain ⟨conn, stmt⟩ := entry
      simp only [serveTrace] at h
      split at h
      · rename_i hguard
        split at h
        · cases h
        · rename_i outcome σ₁ houtcome
          obtain ⟨r, hrest, hr⟩ := Option.map_eq_some_iff.mp h
          cases hr
          rw [List.append_cons]
          exact ih (run.step hguard houtcome) hrest
      · cases h

theorem Trace.mono {guard guard' : Nat → Statement → Database → Prop}
    {trace : List (Nat × Statement × Outcome)}
    (h : ∀ conn stmt σ, guard conn stmt σ → guard' conn stmt σ) (run : Trace guard σ₀ trace σ) :
    Trace guard' σ₀ trace σ := by
  induction run with
  | refl => exact .refl
  | step _ hguard houtcome ih => exact ih.step (h _ _ _ hguard) houtcome

/-- No row of the table that is written to has a deleter that has ended. -/
def spareable (σ : Database) (stmt : Statement) : Bool :=
  stmt.deletes.all fun table => (σ.rows table.1).all fun t =>
    (versionOf t).xmax.all fun d => (σ.txn.xid2cid.find? d).isSome

/-- What can be evaluated of `Orderly`. -/
def OrderlyEvidently (conn : Nat) (stmt : Statement) (σ : Database) : Prop :=
  Numbered conn σ ∧ PagesFree σ ∧ (levelOf σ conn ≠ .repeatableRead ∨ spareable σ stmt)

instance : Decidable (OrderlyEvidently conn stmt σ) := inferInstanceAs (Decidable (_ ∧ _))

theorem OrderlyEvidently.orderly (h : OrderlyEvidently conn stmt σ) : Orderly conn stmt σ where
  toNumbered := h.1
  free := h.2.1
  spares := by
    obtain hlevel | hrows := h.2.2
    · exact spares_of_level hlevel
    · intro x oid predicate _ hdeletes t ht _ d hxmax
      rw [spareable, hdeletes] at hrows
      have hrow := List.all_eq_true.mp hrows t ht
      rw [hxmax] at hrow
      exact hrow

/-- Two connections on one table, one of which reads by its snapshot: an INSERT that it does
not see, an UPDATE that is not committed yet, one that is refused its row, and a rollback. -/
def updatesAndRollsBack : List (Nat × Statement) :=
  [(1, insertRows 10001 [[1], [2]]), (2, .setIsolationLevel .repeatableRead), (2, .begin),
    (1, insertRows 10001 [[5]]), (2, selectAll 10001), (2, updateAll 10001 [3]),
    (1, selectAll 10001), (1, updateAll 10001 [4]), (2, selectAll 10001), (2, .commit),
    (1, .begin), (1, deleteRows 10001 [3]), (1, .rollback), (1, selectAll 10001)]

end Sql

end HuaDB
