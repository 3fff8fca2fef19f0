import ModelBinding.Binding.Context
import ModelBinding.Proofs.Context.Environment
import ModelBinding.Proofs.Context.Members
import ModelBinding.Proofs.Number.Rounding

/-!
# Reading a context back

A context that a text gives comes out of its own dump, in full and concise: reading leaves nothing
open that the dump leaves out, and no number in a text is one that a dump cannot hold. Its numbers come
out as the reader takes their texts, so they are as they were if the reader rounds to nearest.
-/
namespace ModelBinding

variable {mode : DumpMode} {rounding : Rounding} {view : View} {v : Value} {depth : Nat}

theorem Decoder.finite_of_binary64 {x : Binary64} (h : Decoder.binary64 v = .ok x)
    (hv : v.IsFinite) : ∃ negative rank, x = .finite negative rank := by
  cases v with
  | integer i =>
    have hx : Binary64.ofInt i.toInt = x := Except.ok.inj h
    have hle := i.le_toInt
    have hlt := i.toInt_lt
    rw [← hx]
    exact Binary64.finite_ofInt (by omega)
  | unsigned n =>
    have hx : Binary64.ofInt n.toNat = x := Except.ok.inj h
    rw [← hx]
    exact Binary64.finite_ofInt n.toNat_lt
  | float y =>
    cases h
    exact Value.isFinite_float.1 hv
  | _ => cases h

theorem Json.isFinite_of_parse {text : String} (h : Json.parse text rounding = .ok v) : v.IsFinite := by
  unfold Json.parse at h
  split at h
  · rename_i hparse
    cases h
    exact Json.isFinite_of_parse? hparse
  · cases h

/-! ## Modules -/

namespace ModelClass

theorem finite_of_decode {model : ModelClass} (h : decode v = .ok model) (hv : v.IsFinite) :
    ∃ negative rank, model.sampleTime = .finite negative rank := by
  obtain ⟨entries, rfl, hread⟩ := Decoder.record_eq_ok.1 h
  simp only [Record.reads_seq, Record.reads_map, Record.reads_required] at hread
  obtain ⟨_, ⟨_, ⟨_, ⟨_, ⟨_, ⟨_, ⟨_, ⟨_, ⟨name, -, rfl⟩, doc, -, rfl⟩, codeNamespace, -, rfl⟩,
    identifier, -, rfl⟩, sampleTime, ⟨w, hlookup, hsampleTime⟩, rfl⟩, methods, -, rfl⟩,
    fields, -, rfl⟩, fieldMapping, -, rfl⟩, typeMapping, -, rfl⟩ := hread
  exact Decoder.finite_of_binary64 hsampleTime (hv.of_lookup hlookup)

end ModelClass

namespace Module

/-- What reading a module guarantees. Its parts can be replaced one by one, so it is said apart. -/
structure Valid (module : Module) : Prop where
  sampleTime : ∃ negative rank, module.modelClass.sampleTime = .finite negative rank
  owner : module.types.classIdentifier = module.modelClass.identifier
  env : module.env.Valid

theorem make_self {module : Module}
    (howner : module.types.classIdentifier = module.modelClass.identifier) :
    make module.name module.doc module.version module.author module.license module.modelClass
      module.types.definitions module.env = .ok module := by
  have htable : TypeTable.make module.types.definitions module.modelClass.identifier =
      .ok module.types := by
    rw [← howner]
    exact module.types.make_self
  exact map_eq_ok.2 ⟨module.types, htable, rfl⟩

/-- A module is read from entries of its own for each of its parts. -/
theorem parts_of_decode {module : Module} (h : decode v = .ok module) : ∃ entries, v = .table entries ∧
    (∃ w, entries.lookup "model_class" = some w ∧ ModelClass.decode w = .ok module.modelClass) ∧
    module.types.classIdentifier = module.modelClass.identifier ∧
    ∃ w, entries.lookup "env" = some w ∧ Environment.decode w = .ok module.env := by
  obtain ⟨made, hrecord, hmade⟩ := Decoder.refine_eq_ok.1 h
  obtain ⟨entries, rfl, hread⟩ := Decoder.record_eq_ok.1 hrecord
  simp only [Record.reads_seq, Record.reads_map, Record.reads_required] at hread
  obtain ⟨_, ⟨_, ⟨_, ⟨_, ⟨_, ⟨_, ⟨_, ⟨name, -, rfl⟩, doc, -, rfl⟩, version, -, rfl⟩,
    author, -, rfl⟩, license, -, rfl⟩, model, hmodel, rfl⟩, types, -, rfl⟩, env, henv, rfl⟩ := hread
  obtain ⟨table, htable, rfl⟩ := map_eq_ok.1 (mapError_eq_ok.1 hmade)
  obtain ⟨_, rfl⟩ := TypeTable.make_eq_ok.1 htable
  exact ⟨entries, rfl, hmodel, rfl, henv⟩

theorem of_decode {module : Module} (h : decode v = .ok module) (hv : v.IsFinite) :
    module.Valid ∧ module.env.holdsNan = false := by
  obtain ⟨entries, rfl, ⟨_, hmodelLookup, hmodel⟩, howner, _, henvLookup, henv⟩ := parts_of_decode h
  obtain ⟨henvValid, henvNan⟩ := Environment.of_decode henv
  exact ⟨⟨ModelClass.finite_of_decode hmodel (hv.of_lookup hmodelLookup), howner, henvValid⟩,
    henvNan (hv.of_lookup henvLookup)⟩

theorem decode_shown {module : Module} (h : module.Valid)
    (hsampleTime : view.Says module.modelClass.sampleTime)
    (hsaid : ∀ s ∈ module.env.scalars, s.SaidIn view) :
    decode (view.shown false module.toValue) = .ok (module.mapFloats view.reread) := by
  refine Decoder.refine_eq_ok.2 ⟨.ok (module.mapFloats view.reread), ?_, rfl⟩
  rw [← @make_self (module.mapFloats view.reread) h.owner]
  apply Decoder.record_shown (by simp)
  refine .seq (.seq (.seq (.seq (.seq (.seq (.seq (.map make ?name) ?doc) ?version) ?author)
    ?license) ?modelClass) ?types) ?env
  case name => exact .text rfl (by decide)
  case doc => exact .doc rfl
  case version => exact .text rfl (by decide)
  case author => exact .text rfl (by decide)
  case license => exact .text rfl (by decide)
  case modelClass =>
    exact .required rfl (by decide) (fun h => nomatch h) (ModelClass.decode_shown hsampleTime)
  case types =>
    exact .required rfl (by decide) (fun h => nomatch h) module.types.decode_shown
  case env =>
    exact .required rfl (by decide) (fun h => nomatch h) (Environment.decode_shown h.env hsaid)

theorem dumps {module : Module} (h : module.env.Valid) : module.toValue.Dumps (depth + 6) := by
  have hmodel : module.modelClass.toValue.Dumps (depth + 5) := ModelClass.dumps module.modelClass
  have htypes : module.types.toValue.Dumps (depth + 5) := TypeTable.dumps module.types
  have henv : module.env.toValue.Dumps (depth + 5) := Environment.dumps h
  exact Value.dumps_ofEntries (by simp [hmodel, htypes, henv])

end Module

/-! ## Contexts -/

theorem Value.legible_withEntry {key : String} {entry : Value} (h : v.Legible depth)
    (hentry : entry.Legible (depth - 1)) : (v.withEntry key entry).Legible depth := by
  cases v with
  | table entries =>
    obtain ⟨hdepth, hordered, hentries⟩ := h
    refine ⟨hdepth, keyOrdered_insertEntry key entry hordered, legibleEntries_iff.2 ?_⟩
    intro other hother
    rcases mem_insertEntry hother with rfl | hother
    · exact hentry
    · exact legibleEntries_iff.1 hentries other hother
  | _ => exact h

namespace Context

theorem document_eq (context : Context) (mode : DumpMode) : context.document mode =
    (context.toValue.dumped mode false).withEntry versionKey (.text schemaVersion) := rfl

/-- The entries that a context is written with, its version aside. -/
def fields (context : Context) : List (String × Value) := [
  ("sources", .ofTexts context.sources),
  ("headers", .ofTexts context.headers),
  ("module", context.module.toValue)]

/-- The text of a document shows the entries to a reader. -/
theorem exists_shows_document (context : Context) (mode : DumpMode) (rounding : Rounding) :
    ∃ entries, (context.document mode).mapFloats (Json.reread rounding) = .table entries ∧
      Shows (.dump mode rounding) context.fields entries := by
  have hnodup : (context.fields.map Prod.fst).Nodup := by simp [fields]
  rw [document_eq, toValue, Value.dumped_ofEntries]
  refine ⟨_, Value.mapFloats_table _, fun key hkey => ?_⟩
  rw [lookup_map_snd, lookup_insertEntry, if_neg hkey, ← lookup_map_snd]
  exact shows_dumpedEntries mode rounding hnodup key hkey

theorem legible_document {context : Context} (h : context.module.env.Valid) (mode : DumpMode) :
    (context.document mode).Legible Json.maxDepth := by
  have hsources : (Value.ofTexts context.sources).Dumps 126 :=
    Value.dumps_sequence_map fun s _ => Value.dumps_text s
  have hheaders : (Value.ofTexts context.headers).Dumps 126 :=
    Value.dumps_sequence_map fun s _ => Value.dumps_text s
  have hmodule : context.module.toValue.Dumps 126 := Module.dumps h
  have hdumps : context.toValue.Dumps 127 :=
    Value.dumps_ofEntries (by simp [hsources, hheaders, hmodule])
  exact Value.legible_withEntry (hdumps mode false) trivial

/--
A context of valid parts comes out of its document if all its scalars are numbers, with its numbers as they
are read in the text of the document.
-/
theorem decode_document {context : Context} (h : context.module.Valid)
    (hnan : context.module.env.holdsNan = false) (mode : DumpMode) (rounding : Rounding) :
    decode ((context.document mode).mapFloats (Json.reread rounding)) = .ok (context.reread rounding) := by
  obtain ⟨entries, hentries, hshows⟩ := exists_shows_document context mode rounding
  rw [hentries]
  refine Decoder.record_eq_ok.2 ⟨entries, rfl, ?_⟩
  refine Record.Recovers.seq (.seq (.map mk ?sources) ?headers) ?module entries hshows
  case sources =>
    exact .required rfl (by decide) (fun h => nomatch h) (Decoder.sequence_texts_shown context.sources)
  case headers =>
    exact .required rfl (by decide) (fun h => nomatch h) (Decoder.sequence_texts_shown context.headers)
  case module =>
    exact .required rfl (by decide) (fun h => nomatch h)
      (Module.decode_shown h h.sampleTime (Environment.saidIn_dump h.env hnan))

theorem version_document (context : Context) (mode : DumpMode) (f : Binary64 → Binary64) :
    ((context.document mode).mapFloats f).field? versionKey = some (.text schemaVersion) := by
  rw [document_eq, toValue, Value.dumped_ofEntries, Value.withEntry, Value.mapFloats_table, Value.field?,
    lookup_map_snd, lookup_insertEntry, if_pos rfl]
  rfl

/-- The text of a context is read as its document. -/
theorem ofJson_dump_eq_decode {context : Context} (h : context.module.env.Valid) (mode : DumpMode)
    (rounding : Rounding) : ofJson (context.dump mode) rounding =
      (decode ((context.document mode).mapFloats (Json.reread rounding))).mapError .json := by
  have hparse : Json.parse (context.dump mode) rounding =
      .ok ((context.document mode).mapFloats (Json.reread rounding)) := by
    rw [Json.parse, dump, Json.parse?_spreadText (legible_document h mode)]
  have hversion : checkVersion .context
      ((((context.document mode).mapFloats (Json.reread rounding)).field? versionKey).bind
        Value.asText?) = .ok () := by
    rw [version_document]
    exact if_pos rfl
  generalize (context.document mode).mapFloats (Json.reread rounding) = document at hparse hversion ⊢
  rw [ofJson, Json.readVersioned, hparse]
  change (checkVersion .context _ >>= fun _ => Json.read decode document) = _
  rw [hversion]
  rfl

theorem ofJson_dump {context : Context} (h : context.module.Valid)
    (hnan : context.module.env.holdsNan = false) (mode : DumpMode) (rounding : Rounding) :
    ofJson (context.dump mode) rounding = .ok (context.reread rounding) := by
  rw [ofJson_dump_eq_decode h.env, decode_document h hnan]
  rfl

theorem module_of_decode {context : Context} (h : decode v = .ok context) :
    ∃ entries, v = .table entries ∧
      ∃ w, entries.lookup "module" = some w ∧ Module.decode w = .ok context.module := by
  obtain ⟨entries, rfl, hread⟩ := Decoder.record_eq_ok.1 h
  simp only [Record.reads_seq, Record.reads_map, Record.reads_required] at hread
  obtain ⟨_, ⟨_, ⟨sources, -, rfl⟩, headers, -, rfl⟩, module, hmodule, rfl⟩ := hread
  exact ⟨entries, rfl, hmodule⟩

/-- A context that a text gives is read from the value of the text. -/
theorem decode_of_ofJson {text : String} {context : Context} (h : ofJson text rounding = .ok context) :
    ∃ v, Json.parse text rounding = .ok v ∧ decode v = .ok context := by
  obtain ⟨v, hparse, h⟩ := bind_eq_ok.1 h
  obtain ⟨_, -, hdecode⟩ := bind_eq_ok.1 h
  exact ⟨v, hparse, mapError_eq_ok.1 hdecode⟩

theorem of_ofJson {text : String} {context : Context} (h : ofJson text rounding = .ok context) :
    context.module.Valid ∧ context.module.env.holdsNan = false := by
  obtain ⟨v, hparse, hdecode⟩ := decode_of_ofJson h
  obtain ⟨entries, rfl, w, hlookup, hmodule⟩ := module_of_decode hdecode
  exact Module.of_decode hmodule ((Json.isFinite_of_parse hparse).of_lookup hlookup)

theorem refresh_of_valid {context : Context} (h : context.module.Valid)
    (hnan : context.module.env.holdsNan = false) : context.refresh = .ok context := by
  have hdecode := decode_document h hnan .debug .nearest
  rw [Value.mapFloats_eq_self Json.reread_nearest, reread_nearest] at hdecode
  rw [refresh, reconstruct, Json.read, hdecode]
  rfl

/--
A context that a text gives is the one that it is refreshed to, and each of its dumps gives it with its
numbers as they are read. Where that leaves them as they are, as rounding to nearest does, each of its dumps
gives the context itself, which is dumped the same again.
-/
theorem dump_roundTrip {text : String} {context : Context} (h : ofJson text rounding = .ok context) :
    context.refresh = .ok context ∧
    (∀ mode, ofJson (context.dump mode) rounding = .ok (context.reread rounding)) ∧
    (rounding = .nearest ∨ (∀ x ∈ context.floats, Json.reread rounding x = x) →
      (∀ mode, ofJson (context.dump mode) rounding = .ok context) ∧
      ∀ mode reloaded, ofJson (context.dump mode) rounding = .ok reloaded →
        reloaded.dump .concise = context.dump .concise) := by
  obtain ⟨hvalid, hnan⟩ := of_ofJson h
  have hdump := fun mode => ofJson_dump hvalid hnan mode rounding
  refine ⟨refresh_of_valid hvalid hnan, hdump, fun hrounding => ?_⟩
  have hreread : context.reread rounding = context := by
    rcases hrounding with rfl | hfloats
    · exact reread_nearest context
    · exact mapFloats_eq_self_iff.2 hfloats
  rw [hreread] at hdump
  refine ⟨hdump, fun mode reloaded hreloaded => ?_⟩
  rw [hdump mode] at hreloaded
  cases hreloaded
  rfl

/-- The number 0.5. -/
def half : Binary64 := .finite false ⟨1022 * 2 ^ 52, by decide⟩

theorem reread_half (rounding : Rounding) : Json.reread rounding half = half := by
  cases rounding with
  | nearest => exact Json.reread_nearest half
  | bestEffort => decide +kernel

/-- A document that says little: no reset, a gym view that is null, and a key that nobody reads. -/
def sketchValue : Value := .table [
  ("__version__", .text "1.0"),
  ("headers", .sequence []),
  ("module", .table [
    ("author", .text ""),
    ("colour", .text "red"),
    ("env", .table [
      ("gym", .null), ("use_gym", .boolean false), ("use_raw", .boolean true),
      ("use_rng", .boolean false), ("use_vec", .boolean false), ("vec_parallel", .boolean false)]),
    ("license", .text ""),
    ("model_class", .table [
      ("field_mapping", .table [("_x", .text "x"), ("doc", .text "")]), ("fields", .sequence []),
      ("identifier", .text "C"), ("methods", .sequence []), ("name", .text "C"),
      ("sample_time", .float half),
      ("type_mapping", .table [])]),
    ("name", .text "m"),
    ("types", .sequence []),
    ("version", .text "1")]),
  ("sources", .sequence [])]

def sketch : Context where
  sources := []
  headers := []
  module := {
    name := "m", doc := "", version := "1", author := "", license := ""
    modelClass := {
      name := "C", doc := "", codeNamespace := "", identifier := "C"
      sampleTime := half
      methods := [], fields := []
      fieldMapping := ⟨[("_x", "x"), ("doc", "")], by decide⟩
      typeMapping := .empty }
    types := ⟨"C", [], List.nodup_nil⟩
    env := ⟨true, false, false, false, false, none, .default, .empty⟩ }

theorem ofJson_sketch : ofJson (Json.spreadText sketchValue) = .ok sketch := by
  have hlegible : sketchValue.Legible Json.maxDepth := by
    simp only [sketchValue, half, Value.Legible, Value.LegibleItems, Value.LegibleEntries, Json.maxDepth,
      Binary64.finite.injEq, exists_and_left, exists_eq', and_true]
    decide
  have hreread : sketchValue.mapFloats (Json.reread .bestEffort) = sketchValue := by
    simp only [sketchValue, Value.mapFloats, Value.mapItems, Value.mapEntries, reread_half]
  rw [ofJson, Json.readVersioned, Json.parse, Json.parse?_spreadText hlegible, hreread]
  rfl

theorem sketch_dump_roundTrip :
    (∀ mode, ofJson (sketch.dump mode) = .ok sketch) ∧ sketch.refresh = .ok sketch ∧
      ∀ mode reloaded, ofJson (sketch.dump mode) = .ok reloaded →
        reloaded.dump .concise = sketch.dump .concise := by
  obtain ⟨hrefresh, -, hsame⟩ := dump_roundTrip ofJson_sketch
  have hfloats : ∀ x ∈ sketch.floats, Json.reread .bestEffort x = x :=
    List.forall_mem_singleton.2 (reread_half .bestEffort)
  obtain ⟨hdump, hagain⟩ := hsame (.inr hfloats)
  exact ⟨hdump, hrefresh, hagain⟩

end Context

end ModelBinding
