/-
A node stays who it is: its configuration over many starts, each of which
may fail or be killed anywhere.

# Two stages

A start that finds no configuration, or an identity that has to be made,
makes one and saves it before it uses it. Until a rename has gone through,
`config.json` is what it was at first, and no start got a configuration
that is not in it. After the rename every start reads the same one back
(`Stage`). What stopped starts leave is in the file beside it only
(`FilePair.interrupted_target`), and nothing reads that.

# What is assumed

An identity of zeros counts as none, so a start that drew one would be
migrated by the next: no start does. And `exists()` answers a stat that
fails as if there were no file, so such a start makes a new identity over
the one that is there (`load_overlooked`): no stat fails.
-/
import Mathlib.Logic.Encodable.Basic
import Mathlib.Logic.Equiv.List
import StaticNet.Node.Config

namespace StaticNet

namespace ConfigDir

variable {P : Prims} {json : ConfigJson} {created : Nat}
  {target : Option File} {config config' : PersistentConfig}

/-- The file has this configuration, with an identity of its own. -/
def Steady (P : Prims) (json : ConfigJson) (target : Option File)
    (config : PersistentConfig) : Prop :=
  (∃ file, target = some file ∧ json.fromStr file.bytes = some config)
    ∧ config.identityNeedsMigration P = false

/-- What a start makes where there is no such configuration: everything
anew, or an identity for what there is. -/
def Made (P : Prims) (json : ConfigJson) (target : Option File)
    (config : PersistentConfig) : Prop :=
  config.identityNeedsMigration P = false
    ∧ (target = none
      ∨ ∃ file old, target = some file ∧ json.fromStr file.bytes = some old
        ∧ old.identityNeedsMigration P = true
        ∧ config.nodeId = old.nodeId
        ∧ config.mixPrivateKey = old.mixPrivateKey
        ∧ config.knownPeers = old.knownPeers)

theorem steady_unique (h : Steady P json target config)
    (h' : Steady P json target config') : config = config' := by
  obtain ⟨⟨file, hfile, hread⟩, -⟩ := h
  obtain ⟨⟨file', hfile', hread'⟩, -⟩ := h'
  rw [hfile] at hfile'
  cases hfile'
  rw [hread] at hread'
  exact Option.some.inj hread'

theorem Made.not_steady (h : Made P json target config) :
    ¬ Steady P json target config' := by
  rintro ⟨⟨file, hfile, hread⟩, hsteady⟩
  rcases h.2 with hnone | ⟨file', old, hfile', hread', hmigrates, -⟩
  · rw [hnone] at hfile
    cases hfile
  · rw [hfile] at hfile'
    cases hfile'
    rw [hread] at hread'
    cases hread'
    rw [hsteady] at hmigrates
    cases hmigrates

/-- The keys of an identity belong together. -/
theorem consistent (h : config.identityNeedsMigration P = false) :
    P.edPublic config.identityPrivateKey = config.identityPublicKey := by
  unfold PersistentConfig.identityNeedsMigration at h
  split at h
  · cases h
  · simpa using h

theorem drawn_consistent {draw : ConfigDraw}
    (hdraw : draw.identityPrivateKey ≠ Bytes.zero 32)
    (hprivate : config.identityPrivateKey = draw.identityPrivateKey)
    (hpublic : config.identityPublicKey
      = P.edPublic draw.identityPrivateKey) :
    config.identityNeedsMigration P = false := by
  unfold PersistentConfig.identityNeedsMigration
  rw [hprivate, if_neg hdraw, hpublic]
  simp

-- ========= one start

/-- What saving comes to: nothing happened to the file and nobody got the
configuration, or it is there. -/
theorem saved_cases (dir : ConfigDir) (config : PersistentConfig)
    (stop : Option Interruption) :
    ((dir.saved json created config stop).1.target = dir.target
        ∧ (dir.saved json created config stop).2 = none)
      ∨ (dir.saved json created config stop).1.target
          = some ⟨json.toStringPretty config, CONFIG_MODE⟩
        ∧ ∀ got ∈ (dir.saved json created config stop).2, got = config := by
  unfold saved save
  cases stop with
  | none =>
      refine .inr ⟨rfl, fun got hgot => ?_⟩
      exact (Option.some.inj hgot).symm
  | some stop =>
      rcases FilePair.interrupted_target stop with htarget | htarget
      · exact .inl ⟨htarget, rfl⟩
      · exact .inr ⟨htarget, nofun⟩

theorem found_statted {dir : ConfigDir} {start : ConfigStart}
    (h : start.statted = true) : dir.found start = dir.target := if_pos h

theorem load_cases (P : Prims) (json : ConfigJson) (created : Nat)
    {dir : ConfigDir} {start : ConfigStart}
    (hstat : start.statted = true)
    (hdraw : start.draw.identityPrivateKey ≠ Bytes.zero 32) :
    ((dir.loadOrCreate P json created start).1.target = dir.target
        ∧ ∀ got ∈ (dir.loadOrCreate P json created start).2,
          Steady P json dir.target got)
      ∨ ∃ config, Made P json dir.target config
        ∧ (dir.loadOrCreate P json created start).1.target
          = some ⟨json.toStringPretty config, CONFIG_MODE⟩
        ∧ ∀ got ∈ (dir.loadOrCreate P json created start).2,
          got = config := by
  have hsaved : ∀ config, Made P json dir.target config →
      ((dir.saved json created config start.stop).1.target = dir.target
        ∧ ∀ got ∈ (dir.saved json created config start.stop).2,
          Steady P json dir.target got)
      ∨ ∃ config', Made P json dir.target config'
        ∧ (dir.saved json created config start.stop).1.target
          = some ⟨json.toStringPretty config', CONFIG_MODE⟩
        ∧ ∀ got ∈ (dir.saved json created config start.stop).2,
          got = config' := by
    intro config hmade
    rcases saved_cases dir config start.stop with ⟨hsame, hnone⟩ | hdone
    · refine .inl ⟨hsame, ?_⟩
      rw [hnone]
      exact nofun
    · exact .inr ⟨config, hmade, hdone⟩
  unfold loadOrCreate
  rw [found_statted hstat]
  cases htarget : dir.target with
  | none =>
      rw [htarget] at hsaved
      exact hsaved _ ⟨drawn_consistent hdraw rfl rfl, .inl rfl⟩
  | some file =>
      dsimp only
      split
      · exact .inl ⟨htarget, nofun⟩
      · cases hread : json.fromStr file.bytes with
        | none => exact .inl ⟨htarget, nofun⟩
        | some old =>
            dsimp only
            cases hmigrates : old.identityNeedsMigration P with
            | true =>
                rw [htarget] at hsaved
                refine hsaved _ ⟨drawn_consistent hdraw rfl rfl, .inr ?_⟩
                exact ⟨file, old, rfl, hread, hmigrates, rfl, rfl, rfl⟩
            | false =>
                refine .inl ⟨htarget, fun got hgot => ?_⟩
                cases Option.some.inj hgot
                exact ⟨⟨file, rfl, hread⟩, hmigrates⟩

/-- A start whose stat fails makes a new node of one that is there. -/
theorem load_overlooked (P : Prims) (json : ConfigJson) (created : Nat)
    (dir : ConfigDir) {start : ConfigStart} (hstat : start.statted = false)
    (hstop : start.stop = none) :
    (dir.loadOrCreate P json created start).1.target
        = some ⟨json.toStringPretty (.new P start.draw), CONFIG_MODE⟩
      ∧ (dir.loadOrCreate P json created start).2
        = some (.new P start.draw) := by
  unfold loadOrCreate found saved save
  rw [hstat, hstop]
  exact ⟨rfl, rfl⟩

-- ======== all starts

/-- What the starts so far made of a file and what they got. -/
inductive Stage (P : Prims) (json : ConfigJson) (target : Option File) :
    Option File → List (Option PersistentConfig) → Prop
  | untouched (got : List (Option PersistentConfig))
      (h : ∀ config, some config ∈ got → Steady P json target config) :
      Stage P json target target got
  | made (got : List (Option PersistentConfig)) (config : PersistentConfig)
      (hmade : Made P json target config)
      (h : ∀ config', some config' ∈ got → config' = config) :
      Stage P json target
        (some ⟨json.toStringPretty config, CONFIG_MODE⟩) got

/-- One more start. -/
theorem Stage.load (hjson : json.RoundTrips) {dir : ConfigDir}
    {got : List (Option PersistentConfig)}
    (h : Stage P json target dir.target got) {start : ConfigStart}
    (hstat : start.statted = true)
    (hdraw : start.draw.identityPrivateKey ≠ Bytes.zero 32) :
    Stage P json target (dir.loadOrCreate P json created start).1.target
      (got ++ [(dir.loadOrCreate P json created start).2]) := by
  have hcases := @load_cases P json created dir start hstat hdraw
  generalize dir.loadOrCreate P json created start = r at hcases ⊢
  generalize htarget : dir.target = now at h hcases
  cases h with
  | untouched got hgot =>
      rcases hcases with ⟨hsame, hnew⟩ | ⟨config, hmade, hdone, hnew⟩
      · rw [hsame]
        refine .untouched _ fun config hmem => ?_
        rcases List.mem_append.1 hmem with hmem | hmem
        · exact hgot config hmem
        · exact hnew config (List.mem_singleton.1 hmem).symm
      · rw [hdone]
        refine .made _ config hmade fun config' hmem => ?_
        rcases List.mem_append.1 hmem with hmem | hmem
        · exact absurd (hgot config' hmem) hmade.not_steady
        · exact hnew config' (List.mem_singleton.1 hmem).symm
  | made got config hmade hgot =>
      have hsteady : Steady P json
          (some ⟨json.toStringPretty config, CONFIG_MODE⟩) config :=
        ⟨⟨_, rfl, hjson config⟩, hmade.1⟩
      rcases hcases with ⟨hsame, hnew⟩ | ⟨config', hmade', -, -⟩
      · rw [hsame]
        refine .made _ config hmade fun config' hmem => ?_
        rcases List.mem_append.1 hmem with hmem | hmem
        · exact hgot config' hmem
        · exact steady_unique (hnew config' (List.mem_singleton.1 hmem).symm)
            hsteady
      · exact absurd hsteady hmade'.not_steady

theorem Stage.starts (hjson : json.RoundTrips) {dir : ConfigDir}
    {got : List (Option PersistentConfig)}
    (h : Stage P json target dir.target got) {l : List ConfigStart}
    (hstats : ∀ start ∈ l, start.statted = true)
    (hdraws : ∀ start ∈ l,
      start.draw.identityPrivateKey ≠ Bytes.zero 32) :
    Stage P json target (dir.starts P json created l).1.target
      (got ++ (dir.starts P json created l).2) := by
  induction l generalizing dir got with
  | nil =>
      show Stage P json target dir.target (got ++ [])
      rw [List.append_nil]
      exact h
  | cons start later ih =>
      have hload : Stage P json target
          (dir.loadOrCreate P json created start).1.target
          (got ++ [(dir.loadOrCreate P json created start).2]) :=
        h.load hjson (hstats start List.mem_cons_self)
          (hdraws start List.mem_cons_self)
      have hnext := ih hload
        (fun start' hmem => hstats start' (List.mem_cons_of_mem _ hmem))
        fun start' hmem => hdraws start' (List.mem_cons_of_mem _ hmem)
      rw [List.append_assoc] at hnext
      exact hnext

-- ======== the result

/-- A configuration that starts got, over a file. -/
structure Persists (P : Prims) (json : ConfigJson) (target after : Option File)
    (got : List (Option PersistentConfig)) : Prop where
  /-- every start that got one got the same -/
  same : ∀ config config', some config ∈ got → some config' ∈ got →
    config = config'
  /-- it is in the file, and its keys belong together -/
  there : ∀ config, some config ∈ got → Steady P json after config
    ∧ P.edPublic config.identityPrivateKey = config.identityPublicKey
  /-- the file is as it was, or whole, private, and never migrated again -/
  whole : after = target
    ∨ ∃ config, after = some ⟨json.toStringPretty config, CONFIG_MODE⟩
      ∧ Steady P json after config
  /-- an older configuration keeps its id, its mix key and its peers -/
  kept : ∀ file old config, target = some file →
    json.fromStr file.bytes = some old → some config ∈ got →
      config.nodeId = old.nodeId ∧ config.mixPrivateKey = old.mixPrivateKey
        ∧ config.knownPeers = old.knownPeers
        ∧ (old.identityNeedsMigration P = false → config = old)
  /-- a file that cannot be understood is left alone -/
  spared : ∀ file, target = some file → json.fromStr file.bytes = none →
    after = target ∧ ∀ config, some config ∉ got

theorem Stage.persists (hjson : json.RoundTrips) {after : Option File}
    {got : List (Option PersistentConfig)}
    (h : Stage P json target after got) :
    Persists P json target after got := by
  cases h with
  | untouched got hgot =>
      refine ⟨fun c c' hc hc' => steady_unique (hgot c hc) (hgot c' hc'),
        fun c hc => ⟨hgot c hc, consistent (hgot c hc).2⟩, .inl rfl, ?_, ?_⟩
      · intro file old config hfile hread hmem
        obtain ⟨⟨file', hfile', hread'⟩, -⟩ := hgot config hmem
        rw [hfile] at hfile'
        cases hfile'
        rw [hread] at hread'
        cases hread'
        exact ⟨rfl, rfl, rfl, fun _ => rfl⟩
      · intro file hfile hread
        refine ⟨rfl, fun config hmem => ?_⟩
        obtain ⟨⟨file', hfile', hread'⟩, -⟩ := hgot config hmem
        rw [hfile] at hfile'
        cases hfile'
        rw [hread] at hread'
        cases hread'
  | made got config hmade hgot =>
      have hsteady : Steady P json
          (some ⟨json.toStringPretty config, CONFIG_MODE⟩) config :=
        ⟨⟨_, rfl, hjson config⟩, hmade.1⟩
      refine ⟨fun c c' hc hc' => (hgot c hc).trans (hgot c' hc').symm, ?_,
        .inr ⟨config, rfl, hsteady⟩, ?_, ?_⟩
      · intro c hc
        rw [hgot c hc]
        exact ⟨hsteady, consistent hsteady.2⟩
      · intro file old c hfile hread hmem
        cases hgot c hmem
        rcases hmade.2 with hnone | ⟨file', old', hfile', hread', hmigrates,
          hid, hmix, hpeers⟩
        · rw [hfile] at hnone
          cases hnone
        · rw [hfile] at hfile'
          cases hfile'
          rw [hread] at hread'
          cases hread'
          refine ⟨hid, hmix, hpeers, fun hsteady => ?_⟩
          rw [hsteady] at hmigrates
          cases hmigrates
      · intro file hfile hread
        rcases hmade.2 with hnone | ⟨file', old', hfile', hread', -⟩
        · rw [hfile] at hnone
          cases hnone
        · rw [hfile] at hfile'
          cases hfile'
          rw [hread] at hread'
          cases hread'

/-- A start that nothing stops gets a configuration. -/
theorem load_isSome {dir : ConfigDir} {start : ConfigStart}
    (hstat : start.statted = true) (hreadable : start.readable = true)
    (hstop : start.stop = none)
    (hfile : ∀ file, dir.target = some file →
      (json.fromStr file.bytes).isSome = true) :
    (dir.loadOrCreate P json created start).2.isSome = true := by
  unfold loadOrCreate
  rw [found_statted hstat]
  cases htarget : dir.target with
  | none =>
      unfold saved save
      rw [hstop]
      rfl
  | some file =>
      obtain ⟨config, hread⟩ := Option.isSome_iff_exists.1 (hfile file htarget)
      simp only [hreadable, hread, Bool.not_true, Bool.false_eq_true,
        if_false]
      split
      · unfold saved save
        rw [hstop]
        rfl
      · rfl

/-- Over any number of starts, each of which may fail or be killed at any
call but a stat of the file, and in the middle of a write, a node has one
configuration. -/
theorem configuration_persists (P : Prims) (json : ConfigJson)
    (hjson : json.RoundTrips) (created : Nat) (dir : ConfigDir)
    (l : List ConfigStart)
    (hstats : ∀ start ∈ l, start.statted = true)
    (hdraws : ∀ start ∈ l,
      start.draw.identityPrivateKey ≠ Bytes.zero 32) :
    Persists P json dir.target (dir.starts P json created l).1.target
        (dir.starts P json created l).2
      ∧ ∀ start, start.statted = true → start.readable = true →
        start.stop = none →
        (∀ file, dir.target = some file →
          (json.fromStr file.bytes).isSome = true) →
        (((dir.starts P json created l).1.loadOrCreate P json created
          start).2).isSome = true := by
  have hstage : Stage P json dir.target
      (dir.starts P json created l).1.target
      (dir.starts P json created l).2 :=
    Stage.starts hjson (.untouched [] nofun) hstats hdraws
  refine ⟨hstage.persists hjson, fun start hstat hreadable hstop hfile => ?_⟩
  refine load_isSome hstat hreadable hstop fun file hafter => ?_
  rcases (hstage.persists hjson).whole with hsame | ⟨config, -, hsteady⟩
  · exact hfile file (hsame ▸ hafter)
  · obtain ⟨⟨file', hfile', hread⟩, -⟩ := hsteady
    rw [hafter] at hfile'
    cases hfile'
    rw [hread]
    rfl

-- ======== two starts

instance : Encodable PersistentConfig :=
  Encodable.ofLeftInverse
    (fun c => (c.nodeId.toList.map UInt8.toNat,
      c.mixPrivateKey.toList.map UInt8.toNat,
      c.identityPrivateKey.toList.map UInt8.toNat,
      c.identityPublicKey.toList.map UInt8.toNat,
      c.knownPeers.map fun peer => peer.toList.map Char.toNat))
    (fun t => ⟨Bytes.ofList 16 (t.1.map UInt8.ofNat),
      Bytes.ofList 32 (t.2.1.map UInt8.ofNat),
      Bytes.ofList 32 (t.2.2.1.map UInt8.ofNat),
      Bytes.ofList 32 (t.2.2.2.1.map UInt8.ofNat),
      t.2.2.2.2.map fun peer => String.ofList (peer.map Char.ofNat)⟩)
    fun c => by
      have hbytes : ∀ l : List UInt8,
          (l.map UInt8.toNat).map UInt8.ofNat = l := fun l => by
        simp [Function.comp_def]
      simp only [hbytes, Bytes.ofList_toList]
      simp [Function.comp_def]

/-- A textual form of configurations that reads back: a number in
unary. -/
def unaryConfig : ConfigJson where
  toStringPretty c := List.replicate (Encodable.encode c) 0
  fromStr l := Encodable.decode l.length

theorem unaryConfig_roundTrips : unaryConfig.RoundTrips := by
  intro c
  unfold unaryConfig
  dsimp only
  rw [List.length_replicate, Encodable.encodek]

/-- A new node that is killed while it writes its configuration, is
started again, and once more when the file cannot be read. -/
def killedOnce : List ConfigStart :=
  let draw := fun b => ⟨Bytes.fill 16 b, Bytes.fill 32 b, Bytes.fill 32 b⟩
  [⟨draw 1, true, true, some ⟨0, 3⟩⟩, ⟨draw 2, true, true, none⟩,
    ⟨draw 3, true, false, none⟩]

theorem configuration_persists_killed :
    Persists .plain unaryConfig none
        (starts .plain unaryConfig 0o644 ⟨none, none⟩ killedOnce).1.target
        (starts .plain unaryConfig 0o644 ⟨none, none⟩ killedOnce).2
      ∧ (starts .plain unaryConfig 0o644 ⟨none, none⟩ killedOnce).2
        = [none, some (.new .plain ⟨Bytes.fill 16 2, Bytes.fill 32 2,
          Bytes.fill 32 2⟩), none] := by
  refine ⟨(configuration_persists .plain unaryConfig unaryConfig_roundTrips
    0o644 ⟨none, none⟩ killedOnce ?_ ?_).1, rfl⟩
  · decide
  · decide

end ConfigDir

end StaticNet
