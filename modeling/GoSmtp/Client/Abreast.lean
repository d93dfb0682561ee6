import GoSmtp.Client.SideBySide

/-!
# Calls side by side

The calls of the client keep two sessions together, for every view under which the outside
answers alike.  AUTH is apart: what it does depends on the contents of the challenges.
-/

namespace GoSmtp.Client.View

open Exec

variable {φ ω α β μ : Type} {v : View ω} {env : Env φ ω}

open Sasl

/-! ### Commands -/

section Commands

variable (henv : v.Uniform env)

theorem twins_expected (opts : Options) (command : Bytes) {V : α → β → Prop} {m m' : Call φ ω Reply}
    (hm : v.Twins (Reply.Alike v.hide) m m') {want : List Int} (hwant : (334 : Int) ∉ want)
    {k : Reply → Call φ ω α} {k' : Reply → Call φ ω β} (hk : ∀ r, v.Twins V (k r) (k' r)) :
  v.Twins V
    (do
      let r ← m
      expectReply opts command r want
      k r)
    (do
      let r ← m'
      expectReply opts command r want
      k' r)
  := by
  apply hm.bind
  intro r r' hr
  apply (twins_expectReply opts command hr want).bind
  intro _ _ hcode
  obtain rfl := hr.eq_of_code_ne fun h => hwant (h ▸ hcode)
  apply hk

theorem twins_checked (check : Option (ClientError φ)) {V : α → β → Prop} {m : Call φ ω α}
    {m' : Call φ ω β} (h : v.Twins V m m') :
  v.Twins V (checked check m) (checked check m')
  := by
  cases check with
  | some e => exact .fail (.refl _ _)
  | none => exact h

theorem twins_mapErr (f : ClientError φ → ClientError φ) {V : α → β → Prop} {m : Call φ ω α}
    {m' : Call φ ω β} (h : v.Twins V m m') :
  v.Twins V (Exec.mapErr f m) (Exec.mapErr f m')
  := h.mapErr fun _ _ he => he.map f

theorem twins_returning {hide : Bool} {R S : Conn φ ω → Conn φ ω → Prop}
    {m m' : Call φ ω (Returned φ)} (h : Exec.Twins R (Returned.Alike hide) (Veiled hide) S m m') :
  Exec.Twins R (Returned.Alike hide) (Veiled hide) S (returning m) (returning m')
  := by
  apply h.attempt.chain fun _ _ h => h
  intro x y hxy
  cases hxy with
  | ok hr =>
    apply Twins.pure hr
  | error he =>
    apply Twins.pure
    exact ⟨rfl, he.map fun e => Returned.mk [] (some e)⟩

theorem twins_simple {hide : Bool} {R S : Conn φ ω → Conn φ ω → Prop} {V : α → β → Prop}
    {m : Call φ ω α} {m' : Call φ ω β} (h : Exec.Twins R V (Veiled hide) S m m') :
  Exec.Twins R (Returned.Alike hide) (Veiled hide) S (simple m) (simple m')
  := by
  apply twins_returning
  apply h.chain fun _ _ h => h
  intro _ _ _
  apply Twins.pure (.refl _ _)

include henv

theorem twins_executeOne_same (opts : Options) (c : QueuedCommand) :
  v.Twins (Reply.Alike v.hide) (executeOne opts env c) (executeOne opts env c)
  := twins_executeOne henv opts (.refl _ _) Iff.rfl

theorem twins_heloLocked (opts : Options) :
  v.Twins (fun _ _ => True) (heloLocked opts env) (heloLocked opts env)
  := by
  apply (twins_executeOne_same henv opts _).bind
  intro r r' hr
  obtain ⟨_, h, h'⟩ | ⟨e, e', h, h', he⟩ :=
    unexpectedReply_alike (φ := φ) opts (ascii "HELO") hr false [250]
  · rw [h, h']
    apply twins_unlessClosed
    intro s s' hs
    apply hs.assign hs.state hs.transactionBase_eq rfl hs.recipients_eq hs.smtpUTF8_eq
      hs.binaryMIME_eq
  · rw [h, h']
    apply Twins.fail he

theorem twins_ehloLocked (opts : Options) :
  v.Twins (fun _ _ => True) (ehloLocked opts env) (ehloLocked opts env)
  := by
  apply (twins_mapErr _ (twins_executeOne_same henv opts _)).bind
  intro r r' hr
  apply Twins.ite (by rw [hr.code_eq])
  · apply twins_heloLocked henv
  · obtain ⟨hcode, h, h'⟩ | ⟨e, e', h, h', he⟩ :=
      unexpectedReply_alike (φ := φ) opts (helloVerb opts) hr false [250]
    · rw [h, h']
      obtain rfl := hr.eq_of_code_ne fun h => by simp [h] at hcode
      cases hparse : opts.parseEHLO r.lines with
      | none =>
        apply twins_poisoned (.refl _ _)
      | some exts =>
        apply twins_unlessClosed
        intro s s' hs
        apply hs.assign hs.state hs.transactionBase_eq rfl hs.recipients_eq hs.smtpUTF8_eq
          hs.binaryMIME_eq
    · rw [h, h']
      apply Twins.fail he

theorem twins_commandLocked (opts : Options) (verb : Bytes) (args : List Bytes)
    (allowed : List SessionState) :
  v.Twins (Reply.Alike v.hide) (commandLocked opts env verb args allowed)
    (commandLocked opts env verb args allowed)
  := by
  apply (twins_requireState verb allowed).bind
  intro _ _ _
  apply twins_executeOne_same henv

theorem twins_command (opts : Options) (verb : Bytes) (args : List Bytes)
    (allowed : List SessionState) :
  v.Twins (Reply.Alike v.hide) (command opts env verb args allowed)
    (command opts env verb args allowed)
  := by
  apply twins_ifCanceled henv
  · apply Twins.fail (.refl _ _)
  · apply twins_commandLocked henv

theorem twins_query (opts : Options) (verb : Bytes) (args : List Bytes)
    (allowed : List SessionState) {want : List Int} (hwant : (334 : Int) ∉ want) :
  v.Twins Eq (query opts env verb args allowed want) (query opts env verb args allowed want)
  := by
  apply twins_expected opts verb (twins_command henv opts verb args allowed) hwant
  intro r
  apply Twins.pure rfl

theorem twins_etrn (opts : Options) (check : Option (ClientError φ)) (node : Bytes) :
  v.Twins Eq (etrn opts env check node) (etrn opts env check node)
  := by
  apply twins_checked
  apply Twins.read
  intro s s' hs
  apply Twins.ite (by rw [hs.advertises_eq])
  · apply Twins.fail (.refl _ _)
  · apply twins_query henv
    decide

theorem twins_atrn (opts : Options) (check : Option (ClientError φ)) (args : List Bytes) :
  v.Twins (fun _ _ => True) (atrn opts env check args) (atrn opts env check args)
  := by
  apply twins_checked
  apply Twins.read
  intro s s' hs
  apply Twins.ite (by rw [hs.advertises_eq])
  · apply Twins.fail (.refl _ _)
  · apply twins_expected opts _ (twins_command henv opts _ args _) (by decide)
    intro r
    apply twins_poisoned (.refl _ _)

end Commands

/-! ### Transactions -/

/-- A function of a connection that looks at its state and its settings only. -/
def Overt (f : Conn φ ω → α) : Prop :=
  ∀ s s', s.state = s'.state → s.settings = s'.settings → f s = f s'

section Transactions

variable (henv : v.Uniform env)
include henv

theorem twins_mail (opts : Options) {m : MailRequest φ ω} (hm : Overt m.encode) :
  v.Twins (fun _ _ => True) (mail opts env m) (mail opts env m)
  := by
  apply twins_checked
  apply Twins.read
  intro s s' hs
  rw [hm s s' hs.state hs.settings]
  have hupdate : v.Twins (fun _ _ => True)
      (Exec.update fun s => { s with binaryMIME := m.binaryMIME s.binaryMIME } : Call φ ω Unit)
      (Exec.update fun s => { s with binaryMIME := m.binaryMIME s.binaryMIME }) := by
    apply Twins.update
    intro s s' hs
    apply hs.assign hs.state hs.transactionBase_eq hs.ext_eq hs.recipients_eq hs.smtpUTF8_eq
    rw [hs.binaryMIME_eq]
  apply hupdate.bind
  intro _ _ _
  apply twins_checked
  apply twins_expected opts _ (twins_commandLocked henv opts _ m.args _) (by decide)
  intro r
  apply (twins_record henv (.refl _)).bind
  intro _ _ _
  apply twins_unlessClosed
  intro s s' hs
  apply hs.assign rfl hs.state hs.ext_eq rfl rfl hs.binaryMIME_eq

omit henv in
theorem acceptedRecipients_alike (recipients : List Recipient) {rs rs' : List Reply}
    (h : List.Forall₂ (Reply.Alike v.hide) rs rs') :
  acceptedRecipients recipients rs = acceptedRecipients recipients rs'
  := by
  induction h generalizing recipients with
  | nil => rfl
  | cons hr _ ih =>
    cases recipients with
    | nil => rfl
    | cons x recipients =>
      have ih := ih recipients
      simp only [acceptedRecipients, List.zip_cons_cons, List.filter_cons, hr.code_eq] at ih ⊢
      split
      · rw [List.map_cons, List.map_cons, ih]
      · exact ih

omit henv in
theorem eq_of_shown {rs rs' : List Reply} (h : List.Forall₂ (Reply.Alike v.hide) rs rs') :
  Veiled v.hide rs rs'
  := by
  intro hhide
  induction h with
  | nil => rfl
  | cons hr _ ih => rw [hr.eq_of_shown hhide, ih]

theorem twins_rcptBatch (opts : Options) (recipients : List Recipient)
    {check : Conn φ ω → Option (ClientError φ)} (hcheck : Overt check) :
  v.Twins (Veiled v.hide) (rcptBatch opts env recipients check)
    (rcptBatch opts env recipients check)
  := by
  apply twins_ifCanceled henv
  · apply Twins.fail (.refl _ _)
  apply Twins.ite Iff.rfl
  · apply Twins.fail (.refl _ _)
  apply (twins_requireState _ _).bind
  intro _ _ _
  apply Twins.read
  intro s s' hs
  rw [hcheck s s' hs.state hs.settings, hs.enhancedStatusCodes_eq]
  apply twins_checked
  apply (twins_executeLocked henv opts _).bind
  intro rs rs' hrs
  have hupdate := twins_unlessClosed (v := v) (φ := φ)
    (f := fun s => { s with recipients := s.recipients ++ acceptedRecipients recipients rs })
    (g := fun s => { s with recipients := s.recipients ++ acceptedRecipients recipients rs' }) (by
      intro s s' hs
      apply hs.assign hs.state hs.transactionBase_eq hs.ext_eq _ hs.smtpUTF8_eq hs.binaryMIME_eq
      rw [hs.recipients_eq, acceptedRecipients_alike recipients hrs])
  apply hupdate.bind
  intro _ _ _
  apply Twins.pure
  apply (eq_of_shown hrs).map

theorem twins_reset (opts : Options) :
  v.Twins (fun _ _ => True) (reset opts env) (reset opts env)
  := by
  apply twins_expected opts _ (twins_commandLocked henv opts _ _ _) (by decide)
  intro r
  apply twins_unlessClosed
  intro s s' hs
  apply hs.assign _ hs.transactionBase_eq hs.ext_eq rfl rfl rfl
  rw [hs.state, hs.transactionBase_eq]

end Transactions

/-! ### The connection -/

section Connection

variable (henv : v.Uniform env)
include henv

theorem twins_sendQuit (opts : Options) :
  v.Twins (fun _ _ => True) (sendQuit opts env) (sendQuit opts env)
  := by
  have hquit : v.Twins (fun _ _ => True)
      (do
        let r ← executeOne opts env { verb := ascii "QUIT", syncPoint := true }
        expectReply opts (ascii "QUIT") r [221])
      (do
        let r ← executeOne opts env { verb := ascii "QUIT", syncPoint := true }
        expectReply opts (ascii "QUIT") r [221]) := by
    apply (twins_executeOne_same henv opts _).bind
    intro r r' hr
    apply (twins_expectReply opts _ hr _).mono
    · exact fun _ _ _ => trivial
    · exact fun _ _ h => h
    · exact fun _ _ h => h
  apply hquit.attempt.bind
  intro x y hxy
  apply twins_poison.bind
  intro _ _ _
  cases hxy with
  | ok _ => exact Twins.pure trivial
  | error he => exact Twins.fail he

theorem twins_quit (opts : Options) :
  v.Twins (fun _ _ => True) (quit opts env) (quit opts env)
  := by
  apply twins_ifCanceled henv
  · apply Twins.fail (.refl _ _)
  · apply Twins.read
    intro s s' hs
    apply Twins.ite (by rw [hs.closed_eq])
    · apply Twins.fail (.refl _ _)
    · apply twins_sendQuit henv

theorem twins_close (opts : Options) :
  v.Twins (fun _ _ => True) (close opts env) (close opts env)
  := by
  apply Twins.read
  intro s s' hs
  apply Twins.ite (by rw [hs.closed_eq])
  · apply Twins.pure trivial
  · apply twins_sendQuit henv

theorem twins_startTLS (opts : Options) :
  v.Twins (fun _ _ => True) (startTLS opts env) (startTLS opts env)
  := by
  apply twins_ifCanceled henv
  · apply Twins.fail (.refl _ _)
  apply (twins_requireState _ _).bind
  intro _ _ _
  apply Twins.read
  intro s s' hs
  apply Twins.ite (by rw [hs.advertises_eq])
  · apply Twins.fail (.refl _ _)
  apply twins_expected opts _ (twins_executeOne_same henv opts _) (by decide)
  intro r
  have hclear : v.Twins (fun _ _ => True)
      (Exec.update fun s => { s with ext := [] } : Call φ ω Unit)
      (Exec.update fun s => { s with ext := [] }) := by
    apply Twins.update
    intro s s' hs
    apply hs.assign hs.state hs.transactionBase_eq rfl hs.recipients_eq hs.smtpUTF8_eq
      hs.binaryMIME_eq
  apply hclear.bind
  intro _ _ _
  apply (twins_outside henv.handshake).bind
  intro x y hxy
  cases hxy with
  | error he =>
    subst he
    apply twins_ifCanceled henv
    · apply twins_poisoned (.refl _ _)
    · apply twins_poisoned (.refl _ _)
  | ok hfeed =>
    have hswitch := twins_unlessClosed (v := v) (φ := φ)
      (f := fun s => { s with replies := _, state := .tls })
      (g := fun s => { s with replies := _, state := .tls })
      (fun s s' hs => ⟨hfeed, hs.worlds, rfl, hs.settings, hs.logs⟩)
    apply hswitch.bind
    intro _ _ _
    apply twins_ehloLocked henv

end Connection

/-! ### Content -/

section Content

theorem twins_sharedResult (opts : Options) (command : Bytes) (recipients : List Bytes)
    {r r' : Reply} (hr : r.Alike v.hide r') :
  v.Twins (Returned.Alike v.hide) (sharedResult opts command recipients r : Call φ ω _)
    (sharedResult opts command recipients r')
  := by
  apply (twins_expectReply opts command hr _).bind
  intro _ _ hcode
  obtain rfl := hr.eq_of_code_ne fun h => by simp [h] at hcode
  apply Twins.read
  intro s s' hs
  rw [hs.enhancedStatusCodes_eq]
  apply Twins.pure (.refl _ _)

theorem twins_endTransaction :
  v.Twins (fun _ _ => True) (unlessClosed endTransaction : Call φ ω Unit)
    (unlessClosed endTransaction)
  := by
  apply twins_unlessClosed
  intro s s' hs
  apply hs.assign hs.transactionBase_eq hs.transactionBase_eq hs.ext_eq rfl hs.smtpUTF8_eq
    hs.binaryMIME_eq

variable (henv : v.Uniform env)
include henv

theorem twins_lmtpReplies (opts : Options) (command : Bytes) (recipients : List Bytes)
    {result result' : DataResult} (hresult : Veiled v.hide result result') :
  v.Twins (Returned.Alike v.hide) (lmtpReplies opts env command result recipients)
    (lmtpReplies opts env command result' recipients)
  := by
  induction recipients generalizing result result' with
  | nil =>
    apply Twins.pure
    exact ⟨rfl, hresult.map fun result => Returned.mk result none⟩
  | cons recipient recipients ih =>
    apply (twins_read henv opts command).attempt.bind
    intro x y hxy
    cases hxy with
    | error he =>
      apply twins_poison.bind
      intro _ _ _
      apply Twins.pure
      refine ⟨rfl, fun hhide => ?_⟩
      rw [hresult hhide, he hhide]
    | ok hr =>
      apply Twins.read
      intro s s' hs
      apply ih
      intro hhide
      rw [hresult hhide, hr.eq_of_shown hhide, hs.enhancedStatusCodes_eq]

theorem twins_lmtpEnd (command : Bytes) {done : Call φ ω Unit}
    (hdone : v.Twins (fun _ _ => True) done done) {x y : Returned φ} (hxy : x.Alike v.hide y) :
  v.Twins (Returned.Alike v.hide) (lmtpEnd env command done x) (lmtpEnd env command done y)
  := by
  have hfailed := hxy.failed
  cases hx : x.err <;> cases hy : y.err <;> rw [hx, hy] at hfailed <;>
    simp only [lmtpEnd, hx, hy]
  · apply (twins_outside henv.extraReply).bind
    rintro extra _ rfl
    apply Twins.ite Iff.rfl
    · apply twins_poison.bind
      intro _ _ _
      apply Twins.pure (.refl _ _)
    · apply hdone.bind
      intro _ _ _
      apply Twins.pure hxy
  · cases hfailed
  · cases hfailed
  · apply Twins.pure hxy

omit henv in
theorem twins_stuffed
    {f : Sink ω φ → DotStuffWriter → ω → Option (StuffError φ) × DotStuffWriter × ω}
    (d : DotStuffWriter) (hf : ∀ {w w'}, v.worlds w w' → ∃ e d' x x', f ⟨env.write⟩ d w = (e, d', x)
      ∧ f ⟨env.write⟩ d w' = (e, d', x') ∧ v.worlds x x') :
  v.Twins Eq (stuffed f env d) (stuffed f env d)
  := by
  intro s s' hs
  obtain ⟨e, d', x, x', hx, hx', hworlds⟩ := hf hs.worlds
  simp only [stuffed, hx, hx']
  exact ⟨.ok rfl, ⟨hs.replies, hworlds, hs.state, hs.settings, hs.logs⟩⟩

theorem write_same (p : Bytes) {w w' : ω} (h : v.worlds w w') :
  (env.write p w).1 = (env.write p w').1 ∧ v.worlds (env.write p w).2 (env.write p w').2
  := henv.write (.refl _ p) h

theorem twins_copyOctets (w : Bytes) (d : DotStuffWriter) :
  v.Twins Eq (copyOctets env w d) (copyOctets env w d)
  := by
  apply Twins.ite Iff.rfl
  · apply Twins.pure rfl
  · have hstuffed := twins_stuffed (v := v) (f := fun k d o => (DotStuffWriter.write k w d o).2) d (by
      intro o o' ho
      obtain ⟨_, e, d', x, x', hx, hx', hR⟩ := DotStuffWriter.write_answers_alike
        (k := ⟨env.write⟩) (fun p _ _ h => write_same henv p h) w d ho
      exact ⟨e, d', x, x', congrArg (·.2) hx, congrArg (·.2) hx', hR⟩)
    apply hstuffed.bind
    rintro x _ rfl
    split
    · apply twins_poisoned (.refl _ _)
    · apply Twins.pure rfl

theorem twins_copyContent {n : Nat} {source : Source φ} {d : DotStuffWriter} :
  v.Twins Eq (copyContent env n source d) (copyContent env n source d)
  := by
  induction n generalizing source d with
  | zero =>
    apply Twins.panic
  | succ n ih =>
    apply twins_ifCanceled henv
    · apply twins_poisoned (.refl _ _)
    · apply (twins_copyOctets henv _ d).bind
      rintro d' _ rfl
      split
      · apply Twins.pure rfl
      · apply twins_poisoned (.refl _ _)
      · apply ih

theorem twins_endContent (opts : Options) (recipients : List Bytes) (d : DotStuffWriter) :
  v.Twins (fun _ _ => True) (endContent opts env recipients d) (endContent opts env recipients d)
  := by
  apply (twins_record henv (.refl _)).bind
  intro _ _ _
  have hstuffed := twins_stuffed (v := v) (f := fun k d o => DotStuffWriter.close k d o) d
    (fun ho => DotStuffWriter.close_answers_alike (k := ⟨env.write⟩)
      (fun p _ _ h => write_same henv p h) d ho)
  apply hstuffed.bind
  rintro x _ rfl
  split
  · apply twins_poisoned (.refl _ _)
  · apply (twins_record henv (.refl _)).bind
    intro _ _ _
    apply twins_ifCanceled henv
    · apply twins_poisoned (.refl _ _)
    · apply Twins.pure trivial

theorem twins_watched :
  v.Twins (fun _ _ => True) (watched env) (watched env)
  := by
  apply (twins_outside henv.watcher).bind
  rintro x _ rfl
  apply Twins.ite Iff.rfl
  · apply twins_poison
  · apply Twins.pure trivial

theorem twins_finishData (opts : Options) (recipients : List Bytes) :
  v.Twins (Returned.Alike v.hide) (finishData opts env recipients) (finishData opts env recipients)
  := by
  apply Twins.ite Iff.rfl
  · apply (twins_lmtpReplies henv opts _ recipients (.refl _ _)).bind
    intro x y hxy
    apply twins_lmtpEnd henv _ _ hxy
    apply (twins_watched henv).bind
    intro _ _ _
    apply twins_endTransaction
  · apply (twins_mapErr _ (twins_read henv opts _)).bind
    intro r r' hr
    apply (twins_watched henv).bind
    intro _ _ _
    have hend := twins_unlessClosed (v := v) (φ := φ)
      (f := fun s => { endTransaction s with smtpUTF8 := false })
      (g := fun s => { endTransaction s with smtpUTF8 := false })
      (fun s s' hs => hs.assign hs.transactionBase_eq hs.transactionBase_eq hs.ext_eq rfl rfl
        hs.binaryMIME_eq)
    apply hend.bind
    intro _ _ _
    apply twins_sharedResult _ _ _ hr

theorem twins_sendData (opts : Options) (source : Source φ) :
  v.Twins (Returned.Alike v.hide) (sendData opts env source) (sendData opts env source)
  := by
  apply twins_ifCanceled henv
  · apply Twins.fail (.refl _ _)
  apply (twins_requireState _ _).bind
  intro _ _ _
  apply Twins.read
  intro s s' hs
  rw [hs.recipients_eq]
  apply Twins.ite Iff.rfl
  · apply Twins.fail (.refl _ _)
  apply twins_expected opts _ (twins_executeOne_same henv opts _) (by decide)
  intro _
  apply (twins_copyContent henv).bind
  rintro d _ rfl
  apply (twins_endContent henv opts _ d).bind
  intro _ _ _
  apply twins_finishData henv

theorem twins_writeBDATChunk (chunk : Bytes) (last : Bool) (n : Nat) :
  v.Twins (fun _ _ => True) (writeBDATChunk env chunk last n) (writeBDATChunk env chunk last n)
  := by
  apply Twins.ite Iff.rfl
  · apply twins_poisoned (.refl _ _)
  apply (inPace_noteCompleting henv.inPace last).bind
  intro _ _ _
  apply (twins_outside (write_same henv _)).bind
  rintro e _ rfl
  split
  · apply twins_poisoned (.refl _ _)
  have hoctets : v.Twins Eq (writeOctets env chunk) (writeOctets env chunk) := by
    apply Twins.ite Iff.rfl
    · apply Twins.pure rfl
    · apply twins_outside (write_same henv chunk)
  apply hoctets.bind
  rintro e _ rfl
  split
  · apply twins_poisoned (.refl _ _)
  apply (twins_record henv (.refl _)).bind
  intro _ _ _
  apply twins_ifCanceled henv
  · apply twins_poisoned (.refl _ _)
  · apply Twins.pure trivial

theorem twins_exchangeChunk (opts : Options) (recipients : List Bytes) (chunk : Bytes)
    (last : Bool) :
  v.Twins (Reply.Alike v.hide) (exchangeChunk opts env recipients chunk last)
    (exchangeChunk opts env recipients chunk last)
  := by
  apply (twins_mapErr _ (twins_writeBDATChunk henv chunk last _)).bind
  intro _ _ _
  apply twins_mapErr _ (twins_read henv opts _)

theorem twins_bdatFinalReplies (opts : Options) (recipients : List Bytes) {r r' : Reply}
    (hr : r.Alike v.hide r') :
  v.Twins (Returned.Alike v.hide) (bdatFinalReplies opts env recipients r)
    (bdatFinalReplies opts env recipients r')
  := by
  apply Twins.ite Iff.rfl
  · cases recipients with
    | nil =>
      apply Twins.panic
    | cons recipient recipients =>
      apply Twins.read
      intro s s' hs
      have hfirst : Veiled v.hide
          [recipientResult opts (ascii "BDAT") s.enhancedStatusCodes r recipient]
          [recipientResult opts (ascii "BDAT") s'.enhancedStatusCodes r' recipient] := by
        intro hhide
        rw [hr.eq_of_shown hhide, hs.enhancedStatusCodes_eq]
      apply (twins_lmtpReplies henv opts _ recipients hfirst).bind
      intro x y hxy
      apply twins_lmtpEnd henv _ (Twins.pure trivial) hxy
  · apply twins_sharedResult _ _ _ hr

theorem twins_finishBDAT (opts : Options) (recipients : List Bytes) {r r' : Reply}
    (hr : r.Alike v.hide r') :
  v.Twins (Returned.Alike v.hide) (finishBDAT opts env recipients r)
    (finishBDAT opts env recipients r')
  := by
  have hclear : v.Twins (fun _ _ => True)
      (Exec.update fun s => { s with binaryMIME := false } : Call φ ω Unit)
      (Exec.update fun s => { s with binaryMIME := false }) := by
    apply Twins.update
    intro s s' hs
    apply hs.assign hs.state hs.transactionBase_eq hs.ext_eq hs.recipients_eq hs.smtpUTF8_eq rfl
  apply hclear.bind
  intro _ _ _
  apply twins_endTransaction.bind
  intro _ _ _
  apply twins_bdatFinalReplies henv opts recipients hr

theorem twins_bdatLoop (opts : Options) (recipients : List Bytes) (size : Nat) {n : Nat}
    {source : Source φ} :
  v.Twins (Returned.Alike v.hide) (bdatLoop opts env recipients size n source)
    (bdatLoop opts env recipients size n source)
  := by
  induction n generalizing source with
  | zero =>
    apply Twins.panic
  | succ n ih =>
    apply twins_ifCanceled henv
    · apply twins_poisoned (.refl _ _)
    rcases source.readFull size with ⟨chunk, e, rest⟩
    dsimp only
    split
    · apply Twins.fail (.refl _ _)
    · apply (twins_exchangeChunk henv opts recipients chunk true).bind
      intro r r' hr
      apply twins_finishBDAT henv opts recipients hr
    · apply twins_expected opts _ (twins_exchangeChunk henv opts recipients chunk false)
        (by decide)
      intro _
      apply ih

theorem twins_bdat (opts : Options) (source : Source φ) (size : Nat) :
  v.Twins (Returned.Alike v.hide) (bdat opts env source size) (bdat opts env source size)
  := by
  apply twins_ifCanceled henv
  · apply Twins.fail (.refl _ _)
  apply (twins_requireState _ _).bind
  intro _ _ _
  apply Twins.read
  intro s s' hs
  rw [hs.recipients_eq]
  apply Twins.ite Iff.rfl
  · apply Twins.fail (.refl _ _)
  · apply twins_bdatLoop henv

theorem twins_data (opts : Options) (source : Source φ) (o : DataOptions) :
  v.Twins (Returned.Alike v.hide) (data opts env source o) (data opts env source o)
  := by
  apply twins_returning
  apply Twins.read
  intro s s' hs
  apply Twins.ite Iff.rfl
  · apply Twins.ite (by rw [hs.binaryMIME_eq])
    · apply Twins.fail (.refl _ _)
    · apply twins_sendData henv
  apply Twins.ite (by rw [hs.advertises_eq])
  · apply Twins.fail (.refl _ _)
  apply Twins.ite Iff.rfl
  · apply Twins.fail (.refl _ _)
  · apply twins_bdat henv

theorem twins_burl (opts : Options) (url : Bytes) (last : Bool) :
  v.Twins (Returned.Alike v.hide) (burl opts env url last) (burl opts env url last)
  := by
  apply twins_returning
  apply Twins.read
  intro s s' hs
  rw [hs.advertises_eq, hs.recipients_eq]
  apply Twins.ite Iff.rfl
  · apply Twins.fail (.refl _ _)
  apply Twins.ite Iff.rfl
  · apply Twins.fail (.refl _ _)
  apply Twins.ite Iff.rfl
  · apply Twins.fail (.refl _ _)
  apply Twins.ite Iff.rfl
  · apply Twins.fail (.refl _ _)
  apply (twins_requireState _ _).bind
  intro _ _ _
  apply (twins_executeOne_same henv opts _).bind
  intro r r' hr
  apply Twins.ite Iff.rfl
  · have hend := twins_unlessClosed (v := v) (φ := φ)
      (f := fun s => { endTransaction s with smtpUTF8 := false, binaryMIME := false })
      (g := fun s => { endTransaction s with smtpUTF8 := false, binaryMIME := false })
      (fun s s' hs => hs.assign hs.transactionBase_eq hs.transactionBase_eq hs.ext_eq rfl rfl rfl)
    apply hend.bind
    intro _ _ _
    apply twins_sharedResult _ _ _ hr
  · apply (twins_expectReply opts _ hr _).bind
    intro _ _ _
    apply Twins.pure (.refl _ _)

end Content

/-! ### AUTH -/

section Auth

variable (henv : v.Uniform env)
include henv

theorem twins_authResponse {response response' : Bytes}
    (hvalid : validCommandToken response = validCommandToken response')
    (hshown : Veiled v.hide response response') :
  v.Twins (fun _ _ => True) (authResponse env response) (authResponse env response')
  := by
  apply inPace_writeLine henv.inPace
  constructor
  · rfl
  · simp only [QueuedCommand.valid, List.all_cons, hvalid]
  · right
    rfl
  · apply hshown.map fun response => ({ verb := response } : QueuedCommand)

theorem twins_cancelAuth (opts : Options) {V : α → β → Prop} {e e' : ClientError φ}
    (he : Veiled v.hide e e') :
  v.Twins V (cancelAuth opts env e) (cancelAuth opts env e')
  := by
  apply (twins_authResponse henv rfl (.refl _ _)).attempt.bind
  intro x y hxy
  cases hxy with
  | error _ =>
    apply Twins.fail he
  | ok _ =>
    apply (twins_read henv opts _).attempt.bind
    intro x y hxy
    cases hxy with
    | error _ =>
      apply Twins.fail he
    | ok hr =>
      apply Twins.ite (by rw [hr.code_eq])
      · apply twins_poisoned he
      · apply Twins.fail he

theorem twins_exchange (hshown : v.hide = false) (opts : Options) (crypto : Crypto)
    (name : Bytes) (mech : Mechanism μ) {n : Nat} {r : Reply} {m : μ} :
  v.Twins (Reply.Alike v.hide) (exchange opts env crypto name mech n r m)
    (exchange opts env crypto name mech n r m)
  := by
  induction n generalizing r m with
  | zero =>
    apply Twins.panic
  | succ n ih =>
    apply Twins.ite Iff.rfl
    · apply Twins.pure (.refl r)
    split
    · apply twins_cancelAuth henv opts (.refl _ _)
    split
    · apply twins_cancelAuth henv opts (.refl _ _)
    · apply (twins_authResponse henv rfl (.refl _ _)).bind
      intro _ _ _
      apply (twins_read henv opts _).bind
      intro r r' hr
      obtain rfl := hr.eq_of_shown hshown
      apply Twins.ite Iff.rfl
      · apply twins_poisoned (.refl _ _)
      · apply ih

theorem twins_auth (hshown : v.hide = false) (opts : Options) (crypto : Crypto)
    (select : Bytes → Except (ClientError φ) Bytes) (mech : Mechanism μ) :
  v.Twins (fun _ _ => True) (auth opts env crypto select mech)
    (auth opts env crypto select mech)
  := by
  have hauthenticate : v.Twins (fun _ _ => True) (authenticate opts env crypto select mech)
      (authenticate opts env crypto select mech) := by
    apply twins_ifCanceled henv
    · apply Twins.fail (.refl _ _)
    apply (twins_requireState _ _).bind
    intro _ _ _
    apply Twins.read
    intro s s' hs
    rw [hs.ext_eq, hs.replies.length_eq]
    split
    · apply Twins.fail (.refl _ _)
    split
    · apply Twins.fail (.refl _ _)
    split
    · apply Twins.fail (.refl _ _)
    apply (twins_executeOne_same henv opts _).bind
    intro r r' hr
    obtain rfl := hr.eq_of_shown hshown
    apply twins_expected opts _ (twins_exchange henv hshown opts crypto _ mech) (by decide)
    intro _
    apply twins_unlessClosed
    intro s s' hs
    apply hs.assign rfl hs.transactionBase_eq hs.ext_eq hs.recipients_eq hs.smtpUTF8_eq
      hs.binaryMIME_eq
  apply hauthenticate.bind
  intro _ _ _
  apply twins_ehloLocked henv

end Auth

/-! ### Any call -/

/-- The arguments of a call look at no more than the state and the settings. -/
def OvertCall : ClientCall φ ω μ → Prop
  | .mail m => Overt m.encode
  | .rcpt _ check => Overt check
  | _ => True

theorem twins_perform (henv : v.Uniform env) (opts : Options) (crypto : Crypto)
    {c : ClientCall φ ω μ} (hc : OvertCall c) (hauth : ∀ select mech, c = .auth select mech →
      v.Twins (fun _ _ => True) (auth opts env crypto select mech)
        (auth opts env crypto select mech)) :
  v.Twins (Returned.Alike v.hide) (perform opts env crypto c) (perform opts env crypto c)
  := by
  cases c with
  | noop => exact twins_simple (twins_query henv opts _ _ _ (by decide))
  | verify address => exact twins_simple (twins_checked _ (twins_query henv opts _ _ _ (by decide)))
  | expand list => exact twins_simple (twins_checked _ (twins_query henv opts _ _ _ (by decide)))
  | help topic => exact twins_simple (twins_query henv opts _ _ _ (by decide))
  | etrn check node => exact twins_simple (twins_etrn henv opts check node)
  | atrn check args => exact twins_simple (twins_atrn henv opts check args)
  | mail m => exact twins_simple (twins_mail henv opts hc)
  | rcpt recipients check => exact twins_simple (twins_rcptBatch henv opts recipients hc)
  | data source o => exact twins_data henv opts source o
  | burl url last => exact twins_burl henv opts url last
  | reset => exact twins_simple (twins_reset henv opts)
  | auth select mech => exact twins_simple (hauth select mech rfl)
  | startTLS => exact twins_simple (twins_startTLS henv opts)
  | quit => exact twins_simple (twins_quit henv opts)
  | close => exact twins_simple (twins_close henv opts)

end GoSmtp.Client.View
