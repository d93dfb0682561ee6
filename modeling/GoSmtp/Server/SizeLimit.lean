import GoSmtp.Server.Answers
import GoSmtp.Server.Chunks
import GoSmtp.Server.Custody
import GoSmtp.Server.Options

/-!
# The limit of messages

A server announces a limit of messages and holds the content of DATA to it.  Chunks are held to
the bound of a spool only.  So no message above the limit is accepted if the bound of a spool is
not above the limit.
-/

namespace GoSmtp.Server.Session

variable {φ ω : Type}
variable {s : Session φ ω} {env : Env φ ω} {n : Nat} {before : List WireReply}

/-! ### The spool of a session -/

/-- The manager keeps to its options, and the spool of the session to the bound. -/
structure Stocked (opts : SpoolOptions) (s : Session φ ω) : Prop where
  obeys : s.manager.opts = opts
  sized : ∀ spool, s.spool = some spool → Spool.Sized opts ⟨s.manager, spool, s.world⟩

section Stocked

variable {opts : SpoolOptions}

theorem stocked_new {cfg : Config} {manager : SpoolManager} {tls : Bool} {feed : Feed UInt8 φ}
    {world : ω} (h : manager.opts = opts) :
  Stocked opts (Session.new cfg manager tls feed world)
  := ⟨h, by intros; contradiction⟩

theorem Stocked.of_holding {s' : Session φ ω} (h : Stocked opts s) (heq : s'.holding = s.holding) :
  Stocked opts s'
  := by
  obtain ⟨hmanager, hspool⟩ : s'.manager = s.manager ∧ s'.spool = s.spool := by
    simpa [holding] using heq
  constructor
  · rw [hmanager]
    exact h.obeys
  · intro spool hs'
    have hsized := h.sized spool (hspool ▸ hs')
    exact ⟨hmanager ▸ h.obeys, hsized.size, hsized.bounded⟩

theorem Stocked.detach (h : Stocked opts s) :
  Stocked opts s.detachSpool
  := by
  rw [detachSpool]
  split
  · exact h
  · next spool _ =>
    refine ⟨?_, by simp⟩
    simp only [Spool.close, Exec.update]
    split
    · exact h.obeys
    · exact h.obeys

theorem stocked_onSpool {α : Type} {op : Spool.Op ω φ α}
    (hop : Exec.Maintains (Spool.Sized opts) (Spool.Sized opts) op) :
  Exec.Along (Exec.Preserves (Stocked opts)) (onSpool op)
  := by
  intro s h
  rw [onSpool]
  split
  · exact h
  · next spool hspool =>
    have hsized := hop.state (h.sized spool hspool)
    have hstocked : Stocked opts
        { s with manager := (op ⟨s.manager, spool, s.world⟩).2.manager,
                 spool := some (op ⟨s.manager, spool, s.world⟩).2.spool,
                 world := (op ⟨s.manager, spool, s.world⟩).2.world } := by
      refine ⟨hsized.obeys, ?_⟩
      rintro _ ⟨⟩
      exact hsized
    split
    next r manager spool world hrun =>
      rw [hrun] at hstocked
      cases r with
      | ok a => exact hstocked
      | err e => exact hstocked
      | panic => exact hstocked

theorem wp_attachSpool_stocked (h : Stocked opts s) :
  wp (attachSpool env)
    (fun attached s' => Stocked opts s' ∧ (attached = true → s'.spool = some .empty))
    (fun _ => Stocked opts) s
  := by
  have hopts : (env.storage.others s.manager s.world).1.opts = opts := by
    rw [env.storage.others_opts, h.obeys]
  rw [attachSpool, wp_bind, wp_update, wp_bind, wp_read]
  split
  · refine ⟨⟨hopts, fun spool hspool => ?_⟩, by simp⟩
    exact ⟨hopts, (h.sized spool hspool).size, (h.sized spool hspool).bounded⟩
  · next manager spool hnew =>
    obtain ⟨-, rfl, rfl⟩ := by simpa [SpoolManager.newSpool] using hnew
    refine ⟨⟨hopts, ?_⟩, fun _ => rfl⟩
    rintro _ ⟨⟩
    exact ⟨hopts, rfl, Nat.zero_le _⟩

theorem stocked_attachSpool (env : Env φ ω) :
  Exec.Along (Exec.Preserves (Stocked opts)) (attachSpool env)
  := by
  intro s h
  apply wp_state
  exact wp_mono (wp_attachSpool_stocked h) (fun _ _ h => h.1) fun _ _ => id

theorem custody_stocked (env : Env φ ω) :
  Custody env (Exec.Preserves (Stocked opts))
  where
  frame heq h := h.of_holding heq
  detach _ h := h.detach
  attach := stocked_attachSpool env
  write pieces := stocked_onSpool (Spool.sized_writeChunk env.storage opts pieces)
  read := stocked_onSpool (Spool.sized_reader env.storage opts)

theorem wp_keep_stocked {spool : Spool} (h : Stocked opts s) (hspool : s.spool = some spool) :
  wp (stores.keep env n) (fun v _ => v.1 = true → spool.content.length + n ≤ opts.maxBytes)
    (fun _ _ => True) s
  := by
  have hsized := h.sized spool hspool
  have hwrite (pieces : List Bytes) (w : ω) :
      wp (Spool.writeChunk env.storage pieces)
        (fun _ _ => spool.content.length + pieces.flatten.length ≤ opts.maxBytes)
        (fun _ _ => True) ⟨s.manager, spool, w⟩ := by
    have hsized : Spool.Sized opts ⟨s.manager, spool, w⟩ :=
      ⟨hsized.obeys, hsized.size, hsized.bounded⟩
    apply wp_mono (wp_and (Spool.writeChunk_content env.storage pieces _)
      (Spool.sized_writeChunk env.storage opts pieces _ hsized)) _ fun _ _ _ => trivial
    rintro _ t ⟨⟨hcontent, -⟩, hsized'⟩
    have hbounded := hsized'.bounded
    rwa [hsized'.size, hcontent, List.length_append] at hbounded
  rw [stores.keep, wp_bind, spoolChunk, wp_bind, takeChunk, wp_bind]
  refine wp_await (fun w => ?_) fun _ _ => trivial
  rw [wp_bind, wp_read, wp_bind, wp_update, wp_pure, wp_bind,
    wp_outside, wp_bind]
  refine wp_onSpool (by exact hspool) ?_ fun _ _ _ _ => trivial
  rcases hchunk : readBDATChunk n s.feed with ⟨chunk, e, rest⟩
  apply wp_mono (hwrite _ _)
  · intro _ t hbounded
    cases e with
    | some e => trivial
    | none =>
      obtain ⟨hlength, -⟩ := readBDATChunk_ok hchunk
      rw [env.pieces_flatten, hlength] at hbounded
      exact wp_of_forall (fun _ _ => wp_of_forall (fun _ _ _ => hbounded) fun _ _ => trivial)
        fun _ _ => trivial
  · intro _ t _ r _
    cases e with
    | some e => trivial
    | none => simp

theorem wp_stores_stocked {held : Nat} (h : Stocked opts s)
    (hheld : ∀ spool, s.spool = some spool → spool.content.length = held)
    (hnone : s.spool = none → held = 0) :
  wp (stores env n) (fun v _ => v.1 = true → held + n ≤ opts.maxBytes) (fun _ _ => True) s
  := by
  rw [stores, wp_bind, wp_read]
  split
  · next hsome =>
    obtain ⟨spool, hspool⟩ := Option.isSome_iff_exists.mp hsome
    rw [← hheld spool hspool]
    exact wp_keep_stocked h hspool
  · next hempty =>
    obtain rfl := hnone (by simpa using hempty)
    rw [wp_bind]
    apply wp_mono (wp_attachSpool_stocked h) _ fun _ _ _ => trivial
    rintro attached s' ⟨hs', hspool⟩
    cases attached with
    | false => simp
    | true => exact wp_keep_stocked hs' (hspool rfl)

end Stocked

/-! ### Turns -/

/-- Since `before` was said, there was no reply of success. -/
def Refused (before : List WireReply) (s : Session φ ω) : Prop :=
  ∃ rs, s.said = before ++ rs ∧ ∀ r ∈ rs, ¬ (200 ≤ r.code ∧ r.code < 300)

section Turns

variable {cfg : Config} {env : Env φ ω} {c : Command} {rest : Feed UInt8 φ} {s s' : Session φ ω}

theorem refused_silent (h : s'.said = before) :
  Refused before s'
  := ⟨[], by rw [h, List.append_nil], List.forall_mem_nil _⟩

theorem not_refused (h : ∃ r ∈ s'.said.drop before.length, 200 ≤ r.code ∧ r.code < 300) :
  ¬ Refused before s'
  := by
  rintro ⟨rs, hsaid, hrs⟩
  obtain ⟨r, hr, hcode⟩ := h
  rw [hsaid, List.drop_left] at hr
  exact hrs r hr hcode

theorem refused_refusal {r : WireReply} (hr : r.refuses = true) (h : s'.said = before ++ [r]) :
  Refused before s'
  := by
  refine ⟨[r], h, ?_⟩
  simp only [WireReply.refuses, Bool.and_eq_true, decide_eq_true_eq] at hr
  simp only [List.mem_singleton, forall_eq]
  omega

theorem refused_lastChunk {opts : SpoolOptions} (hstocked : Stocked opts s)
    (hledger : Ledger (fun _ _ => True) s.books) (hread : readCommand s.feed = (.ok c, rest))
    (hverb : Verb.ofSpelling c.verb = .bdat) (hsize : announced c.argument = some (n, true))
    (hlarge : cfg.chunking = true → opts.maxBytes < (tally s.log).acked.flatten.length + n) :
  Refused s.said (turn cfg env s).2
  := by
  have hconcluded (s' : Session φ ω) (h : Concluded env False True s s') : Refused s.said s' := by
    rcases h with ⟨⟨⟩, -⟩ | ⟨-, r, hr, hsaid⟩
    exact refused_refusal hr hsaid
  have hstores (hchunking : cfg.chunking = true) (hrcpt : s.recipients ≠ []) (hphase : s.state.phase ≠ .failedBDAT) :
      wp (stores env n) (fun v _ => Allows False True v) (fun _ _ => True)
        (s.receiving env c rest) := by
    have hrecipients : s.state.phase = .recipients :=
      (hledger.accepted hrcpt).resolve_right hphase
    have hnone (hspool : s.spool = none) : (tally s.log).acked.flatten.length = 0 := by
      have hacked : (tally s.log).acked = [] := hledger.fresh hspool (.inr hrecipients)
      simp [hacked]
    have hheld (spool : Spool) (hspool : s.spool = some spool) :
        spool.content.length = (tally s.log).acked.flatten.length :=
      congrArg List.length (hledger.held spool hspool).1
    have hreceiving : Stocked opts (s.receiving env c rest) := hstocked.of_holding rfl
    refine wp_mono (wp_stores_stocked hreceiving (by exact hheld) (by exact hnone)) ?_
      fun _ _ => id
    intro v s' hv
    exact ⟨fun hstored => absurd (hv hstored) (Nat.not_le_of_lt (hlarge hchunking)),
      fun _ => trivial⟩
  apply wp_elim (wp_turn_lastChunk hread hverb hsize (by simp) hstores)
    (P := fun x => Refused s.said x.2)
  · rintro on s' (h | ⟨-, h⟩)
    · exact hconcluded s' h
    · exact refused_silent h
  · rintro e s' (h | h)
    · exact hconcluded s' h
    · exact refused_silent h
  · rintro s' (h | h)
    · exact hconcluded s' h
    · exact refused_silent h

theorem refused_data (hread : readCommand s.feed = (.ok c, rest))
    (hverb : Verb.ofSpelling c.verb = .data) (hlarge : cfg.maxMessage < (received rest).length) :
  Refused s.said (turn cfg env s).2
  := by
  have hanswered {ended : Prop} (s' : Session φ ω)
      (h : AnsweredData cfg env ended (s.receiving env c rest) s') : Refused s.said s' := by
    rw [AnsweredData, said_receiving] at h
    rcases h with ⟨r, hr, h⟩ | ⟨-, h⟩ | ⟨go, hgo, ⟨-, h⟩ | ⟨results, -, ⟨k, h, -⟩, hcode⟩⟩
    · exact refused_refusal hr h
    · exact refused_silent h
    · exact ⟨[go], h, by simp [hgo]⟩
    · refine ⟨go :: (results.take k).map resultReply, by simpa using h, ?_⟩
      simp only [List.mem_cons, List.mem_map]
      rintro r (rfl | ⟨result, hresult, rfl⟩)
      · simp [hgo]
      · have hlast : (resultReply result).code = 552 := hcode hlarge result (List.mem_of_mem_take hresult)
        simp [hlast]
  apply wp_elim (wp_turn_data hread hverb)
    (P := fun x => Refused s.said x.2)
  · exact fun on s' h => hanswered s' h
  · exact fun e s' h => hanswered s' h
  · exact fun s' h => hanswered s' h

end Turns

/-! ### Runs -/

/-- A server whose spools are not larger than its limit of messages accepts no message above the
limit, neither with DATA nor in chunks. -/
theorem refused_after {e : Surroundings} {options : ServerOptions} {server : Server}
    (hserver : newServer e options = .ok server)
    (hlimit : options.enableCHUNKING = true →
      options.maxSpoolBytes ≤ (options.withDefaults e.localHostname).maxMessageBytes)
    (env : Env φ ω) (b : AuthBackend ω) (manager : SpoolManager)
    (hmanager : ∀ opts, server.spools = some opts → manager.opts = opts) (tls : Bool)
    (feed : Feed UInt8 φ) (world : ω) (k : Nat)
    (hon : (after server.config env b manager tls feed world k).2 = true)
    (c : Command) (rest : Feed UInt8 φ)
    (hread :
      readCommand (after server.config env b manager tls feed world k).1.feed = (.ok c, rest)) :
  let s := (after server.config env b manager tls feed world k).1
  let s' := (turn server.config (env.withAuth b) s).2
  (∀ n, Verb.ofSpelling c.verb = .bdat → announced c.argument = some (n, true) →
    server.config.maxMessage < (tally s.log).acked.flatten.length + n → Refused s.said s') ∧
  (Verb.ofSpelling c.verb = .data → server.config.maxMessage < (received rest).length →
    Refused s.said s')
  := by
  intro s s'
  refine ⟨fun n hverb hsize hlarge => ?_, refused_data hread⟩
  have hledger : Ledger (fun _ _ => True) s.books :=
    (boundary_serve (fun _ _ _ => trivial) (ledger_new _ manager tls feed world)
      fun _ _ _ _ _ => trivial).2 hon
  have hstocked : Stocked manager.opts s :=
    (custody_stocked _).serve server.config hon (stocked_new rfl)
  apply refused_lastChunk hstocked hledger hread hverb hsize
  intro hchunking
  obtain ⟨-, ⟨hpos, hconfig⟩, -⟩ := newServer_eq_ok hserver
  have hoptions : options.enableCHUNKING = true := by
    rw [hconfig] at hchunking
    exact hchunking
  obtain ⟨opts, hopts, hle⟩ := newServer_maxBytes_le hserver hchunking (hlimit hoptions)
  rw [hmanager opts hopts]
  exact Nat.lt_of_le_of_lt hle hlarge

/-- A backend that reads what there is and accepts it. -/
def accepting : Env Empty Unit :=
  { Env.plain with
    data := fun w => .read 64 w fun _ => .read 64 w fun _ => .read 64 w fun _ =>
      .ret [⟨[], ascii "DATA", 250, ⟨2, 0, 0, []⟩, ascii "OK"⟩] none w }

/-- The server of small spools, before the chunk in `lines`. -/
def chunked (server : Server) (lines : List String) : Session Empty Unit × Bool :=
  after server.config accepting .plain ⟨⟨8, 8, 8, 8, 1⟩, 0, 0, 0⟩ false
    (script (["EHLO a", "MAIL FROM:<>", "RCPT TO:<c>"] ++ lines)) () 3

/-- Nine octets are too many for a server whose limit is eight. -/
theorem refused_after_nine :
  let server := chunkedServer 8 (by decide)
  let s := (chunked server ["BDAT 9 LAST", "abcdefg"]).1
  newServer .plain (.chunked 8 (by decide)) = .ok server ∧
    Refused s.said (turn server.config (accepting.withAuth .plain) s).2
  := by
  refine ⟨newServer_chunked.2, ?_⟩
  apply (refused_after newServer_chunked.2 (fun _ => by decide) accepting .plain
    ⟨⟨8, 8, 8, 8, 1⟩, 0, 0, 0⟩ (by rintro _ ⟨⟩; rfl) false
    (script (["EHLO a", "MAIL FROM:<>", "RCPT TO:<c>"] ++ ["BDAT 9 LAST", "abcdefg"])) () 3
    (by decide +kernel) ⟨ascii "BDAT", ascii "9 LAST"⟩ (script ["abcdefg"]) (by decide +kernel)).1 9
  · decide +kernel
  · decide +kernel
  · decide +kernel

/-- A server whose limit is two octets accepts three, in a chunk. -/
theorem not_refused_three :
  let server := chunkedServer 2 (by decide)
  let s := (chunked server ["BDAT 3 LAST", "a"]).1
  newServer .plain (.chunked 2 (by decide)) = .ok server ∧
    server.config.maxMessage < 3 ∧
    ¬ Refused s.said (turn server.config (accepting.withAuth .plain) s).2
  := by
  refine ⟨newServer_chunked.1, by decide, ?_⟩
  apply not_refused
  decide +kernel

end GoSmtp.Server.Session
