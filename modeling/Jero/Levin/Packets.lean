import Jero.Levin.Interleaved

namespace Jero.Levin
open Jero.Common List Config.Call MessageWriter
variable {σ τ : Type} {noiseSize : Nat} {output : Bytes}
namespace Config
variable {events others : List Event} {calls : List (Call σ)} {last : Connection σ}

theorem receiveAll_notify (config : Config σ) {command : UInt32} {message : MessageWriter}
    (hnoise : headSize * 2 ≤ noiseSize) (hword : noiseSize < 2 ^ 64)
    (hmessage : message.buffer.length < 2 ^ 64)
    (houtput : makeFragmentedNotify noiseSize command message = some output)
    {connection : Connection σ}
    (hstream : Interleaved noiseSize output (calls.map Call.data).flatten)
    (hstate : connection.framing.state = .head) (hcache : connection.cacheInBuffer = [])
    (h : config.receiveAll connection calls = some (events, last)) :
    events = [⟨⟨command, delivered noiseSize message, .notify⟩, true⟩] := by
  have hidle : framer.step connection.framing connection.cacheInBuffer = .wait := by
    rw [hcache]
    exact framer_idle hstate
  obtain ⟨hcompletes, hsound⟩ := config.receiveAll_received hidle h
  rw [hcache, nil_append] at hcompletes
  have hroom : Room (fun _ _ => True) (calls.map Call.data).flatten := fun _ _ => trivial
  obtain ⟨later, hexpected⟩ :=
    notify_completes hnoise houtput hstream hstate hroom trivial hword hmessage
  have hmessages := (hcompletes.unique hexpected).1
  obtain ⟨event, rfl, hevent⟩ := map_eq_singleton_iff.mp hmessages
  have hhandled : event.handled = true := by
    refine hsound event mem_cons_self ?_
    rw [hevent]
    rfl
  rw [← hevent, ← hhandled]

end Config

theorem Interleaved.of_length {count : Nat} (h : output.length = count * noiseSize) :
    Interleaved noiseSize output output := by
  induction count generalizing output with
  | zero =>
    rw [Nat.zero_mul, length_eq_zero_iff] at h
    rw [h]
    exact .done
  | succ count ih =>
    rw [add_one_mul] at h
    have hpacket : (output.take noiseSize).length = noiseSize := by
      rw [length_take]
      omega
    have hrest : (output.drop noiseSize).length = count * noiseSize := by
      rw [length_drop]
      omega
    have hslice := Interleaved.slice hpacket (ih hrest)
    rwa [take_append_drop] at hslice

theorem levin_stream_faithful :
    (∀ (σ τ : Type) (config : Config σ) (other : Config τ) (link : Link σ) (peer : Link τ)
      (calls : List (Config.Call σ)) (cuts : List (Config.Call τ)) (events others : List Event)
      (last : Connection σ) (final : Connection τ),
      (calls.map data).flatten = (cuts.map data).flatten →
      config.receiveAll (.fresh link) calls = some (events, last) →
      other.receiveAll (.fresh peer) cuts = some (others, final) →
      (∀ event ∈ events, event.handled = true) → (∀ event ∈ others, event.handled = true) →
      events = others) ∧
    ∀ (noiseSize : Nat) (command : UInt32) (message : MessageWriter),
      headSize * 2 ≤ noiseSize → noiseSize < 2 ^ 64 → message.buffer.length < 2 ^ 64 →
      ∃ output, makeFragmentedNotify noiseSize command message = some output ∧
        noiseSize ∣ output.length ∧
        ∀ (σ : Type) (config : Config σ) (connection : Connection σ)
          (calls : List (Config.Call σ)),
          Interleaved noiseSize output (calls.map data).flatten →
          connection.framing.state = .head → connection.cacheInBuffer = [] →
          (∀ events last, config.receiveAll connection calls = some (events, last) →
            events = [⟨⟨command, delivered noiseSize message, .notify⟩, true⟩]) ∧
          (∀ (room : Nat) (Good : Link σ → Prop), config.Accepting room Good →
            Good connection.link →
            (∀ call ∈ calls, ∀ link, Good link → Good (call.meanwhile link)) →
            connection.framing.fragmentBuffer.length +
              (calls.map data).flatten.length ≤ room →
            (calls.map data).flatten.length ≤ config.getMaxBytes 0 →
            config.Fits room command (delivered noiseSize message).length →
            ∃ last, config.receiveAll connection calls =
              some ([⟨⟨command, delivered noiseSize message, .notify⟩, true⟩], last)) := by
  refine ⟨?_, ?_⟩
  · intro σ τ config other link peer calls cuts events others last final hstream hcalls hcuts
      hevents hothers
    have hrebuilt : ∀ events : List Event, (∀ event ∈ events, event.handled = true) →
        (events.map Event.message).map (Event.mk · true) = events := by
      intro events hevents
      rw [map_map]
      refine (map_congr_left ?_).trans (map_id events)
      intro event hevent
      rw [Function.comp_apply, ← hevents event hevent]
      rfl
    have hfirst := (config.receiveAll_received (framer_idle rfl) hcalls).completes
    have hsecond := (other.receiveAll_received (framer_idle rfl) hcuts).completes
    rw [hstream] at hfirst
    rw [← hrebuilt events hevents, (hfirst.unique hsecond).1, hrebuilt others hothers]
  · intro noiseSize command message hnoise hword hmessage
    obtain ⟨output, houtput, hmultiple⟩ : ∃ output,
        makeFragmentedNotify noiseSize command message = some output ∧
          noiseSize ∣ output.length := by
      rcases lt_or_ge noiseSize message.buffer.length with hlong | hfits
      · refine ⟨_, makeFragmentedNotify_split hnoise hlong command, ?_⟩
        have hsize : headSize + (noiseSize - headSize) = noiseSize := by omega
        have hfirst : noiseSize - headSize ≤ (message.finalizeNotify command).length := by
          rw [message.length_finalizeNotify]
          omega
        rw [length_append, length_fragment, length_take, min_eq_left hfirst, hsize]
        refine dvd_add (dvd_refl _) ?_
        have hdvd := fragments_length_dvd (noiseSize - headSize)
          (message.finalizeNotify command).length
          ((message.finalizeNotify command).drop (noiseSize - headSize))
        rwa [hsize] at hdvd
      · refine ⟨_, makeFragmentedNotify_whole hnoise hfits command, ?_⟩
        rw [length_finalizeNotify, put, length_append, length_replicate, Nat.add_sub_cancel' hfits]
    refine ⟨output, houtput, hmultiple, ?_⟩
    intro σ config connection calls hstream hstate hcache
    refine ⟨?_, ?_⟩
    · intro events last h
      exact config.receiveAll_notify hnoise hword hmessage houtput hstream hstate hcache h
    · intro room Good haccepting hgood hmeanwhile hroom hnoisy hfits
      obtain ⟨later, hgoes⟩ := notify_completes hnoise houtput hstream hstate
        (fun _ hsize => Nat.le_min.mpr ⟨by omega, hsize.trans hnoisy⟩) hfits hword hmessage
      have hweight : connection.framing.weight connection.cacheInBuffer +
          (calls.map data).flatten.length ≤ room := by
        rw [Framing.weight, hcache, length_nil, zero_add]
        exact hroom
      have hfull : connection.cacheInBuffer ++ (calls.map data).flatten =
          (calls.map data).flatten := by
        rw [hcache, nil_append]
      rw [← hfull] at hgoes
      obtain ⟨events, last, h, -⟩ :=
        Config.receiveAll_accepts haccepting hgood hmeanwhile hweight hgoes
      have hevents :=
        config.receiveAll_notify hnoise hword hmessage houtput hstream hstate hcache h
      rw [hevents] at h
      exact ⟨last, h⟩

def sampleConfig : Config Unit where
  commandsHandler := true
  maxPacketSize := 100000000
  getMaxBytes := fun _ => 2 ^ 64 - 1
  handshakeCommand := 1001
  handshakeComplete := fun _ => true
  resetTimer := fun _ link => (true, link)
  handle := fun _ _ _ link => link
  invoke := fun _ _ link => (0, [], link)
  notify := fun _ _ link => (0, link)
  sendMessage := fun _ link => (true, link)

def sampleLink : Link Unit :=
  ⟨false, 262144, [], ()⟩

def sampleMessage : MessageWriter :=
  start.put (List.replicate 50 7)

theorem sampleConfig_accepting :
    sampleConfig.Accepting 262144 (fun link => link = sampleLink) where
  commandsHandler := rfl
  stays := by
    rintro link rfl
    rfl
  roomy := by
    rintro link rfl
    exact le_refl _
  timer := by
    rintro link rfl handler hhandler
    cases hhandler
  notified := by
    rintro link rfl command payload
    exact ⟨Int.le_refl 0, rfl⟩

theorem sample_fragments_joined :
    ∃ output last, makeFragmentedNotify 66 2002 sampleMessage = some output ∧
      output.length = 198 ∧
      sampleConfig.receiveAll (.fresh sampleLink) [⟨output.take 40, id⟩, ⟨output.drop 40, id⟩] =
        some ([⟨⟨2002, List.replicate 50 7, .notify⟩, true⟩], last) := by
  obtain ⟨output, houtput, -, hfeeds⟩ := levin_stream_faithful.2 66 2002 sampleMessage
    (by decide) (by decide) (by decide)
  have hlength : output.length = 198 := by
    have hsome := congrArg (Option.map length) houtput
    exact (Option.some.inj ((by decide +kernel : some 198 =
      (makeFragmentedNotify 66 2002 sampleMessage).map length).trans hsome)).symm
  have hstream : ([⟨output.take 40, id⟩, ⟨output.drop 40, id⟩] : List (Config.Call Unit)).map
      data = [output.take 40, output.drop 40] := rfl
  have hflatten : [output.take 40, output.drop 40].flatten = output := by
    rw [flatten_cons, flatten_cons, flatten_nil, append_nil, take_append_drop]
  have hfeed := hfeeds Unit sampleConfig (.fresh sampleLink)
    [⟨output.take 40, id⟩, ⟨output.drop 40, id⟩]
  rw [hstream, hflatten] at hfeed
  have hslices : output.length = 3 * 66 := hlength
  obtain ⟨last, hlast⟩ := (hfeed (.of_length hslices) rfl rfl).2 262144 _ sampleConfig_accepting
    rfl (fun call hcall link hlink => by
      rcases mem_cons.mp hcall with rfl | hcall
      · exact hlink
      · rw [mem_singleton.mp hcall]
        exact hlink)
    (by rw [hlength]; decide) (by rw [hlength]; decide) (Nat.le_min.mpr (by decide))
  exact ⟨output, last, houtput, hlength, hlast⟩

end Jero.Levin
