import PendantClient.Crypto
import PendantClient.Theorems.Boundaries
import PendantClient.Theorems.Live
import PendantClient.Theorems.Twins

/-! Key agreement with the pendant (`crypto.py`): a stream that the pendant has sealed decodes to what the plain stream decodes
    to, with the key set that was generated and with the one made again from the saved private key. -/

namespace PendantClient

/-! ### What is relied on -/

/-- The behaviour of the package that the key sets rely on. -/
structure EcLibrary.Lawful {Priv Pub : Type} (lib : EcLibrary Priv Pub) : Prop where
  form : ∀ pub, (lib.publicBytes pub).length = 65 ∧ (lib.publicBytes pub).head? = some 0x04
  fromEncodedPoint : ∀ pub, lib.fromEncodedPoint (lib.publicBytes pub) = some pub
  exchange : ∀ a b, lib.exchange a (lib.publicKey b) = lib.exchange b (lib.publicKey a)
  hkdf : ∀ shared, (lib.hkdf shared).length = 16
  pem : ∀ key, lib.loadPemPrivateKey (lib.privateBytes key) = some (.secp256r1 key)

/-- The cipher opens what `encrypt` has sealed, a ciphertext and a tag. -/
structure Codecs.Opens (codecs : Codecs) (encrypt : Bytes → Bytes → Bytes → Bytes × Bytes) : Prop where
  tag : ∀ key nonce plain, (encrypt key nonce plain).2.length = 16
  opens : ∀ key nonce plain, key.length = 16 → nonce.length = 12 →
    codecs.aesGcmDecrypt key nonce ((encrypt key nonce plain).1 ++ (encrypt key nonce plain).2) = .ok plain

/-! ### The pendant's side -/

/-- The key that the pendant derives when it is told the server's public key. -/
def pendantKey {Priv Pub : Type} (lib : EcLibrary Priv Pub) (pendantPriv : Priv) (serverPubBytes : Bytes) : Option Bytes :=
  (lib.fromEncodedPoint serverPubBytes).map fun serverPub => lib.hkdf (lib.exchange pendantPriv serverPub)

namespace FlashPagePb2

/-- Encrypted audio in the place of plain audio. -/
def PendantAudioData.sealed (audio : PendantAudioData) (nonce : Bytes) (offsets : List Int) (encrypted : Bytes × Bytes) :
    PendantAudioData where
  __ := audio
  codecBeamformingData := []
  encryptedCodecBeamformingData := some {
    nonce
    ciphertext := encrypted.1
    authenticationTag := encrypted.2
    packetOffsets := offsets }

/-- A chunk and the chunk the pendant stores: audio is sealed under some nonce, anything else stays. -/
inductive Chunk.Sealed (encrypt : Bytes → Bytes → Bytes → Bytes × Bytes) (key : Bytes) : Chunk → Chunk → Prop
  | other (chunk : Chunk) (h : ∀ audio ∈ chunk.audioData, audio.encryptedCodecBeamformingData = none) :
    Chunk.Sealed encrypt key chunk chunk
  | audio (chunk : Chunk) (audio : PendantAudioData) (nonce : Bytes) (offsets : List Int) (h : chunk.audioData = some audio)
    (hplain : audio.encryptedCodecBeamformingData = none) (hdata : audio.codecBeamformingData ≠ []) (hnonce : nonce.length = 12) :
    Chunk.Sealed encrypt key chunk
      { chunk with audioData := some (audio.sealed nonce offsets (encrypt key nonce audio.codecBeamformingData)) }

end FlashPagePb2

/-- A message and the message that carries the same page with its audio sealed. A message without a page that can be read stays
    as it is. -/
inductive SealedMessage (codecs : Codecs) (encrypt : Bytes → Bytes → Bytes → Bytes × Bytes) (key : Bytes) : Bytes → Bytes → Prop
  | page {payload payload' : Bytes} {msg msg' : PendantAllMsg} {sb : StorageBufferMsg} {flashPage : Bytes}
    {page : FlashPagePb2.FlashPage} {chunks : List FlashPagePb2.Chunk} (hparse : codecs.parsePendantAll payload = some msg)
    (hparse' : codecs.parsePendantAll payload' = some msg') (hcontent : msg.content = some (.storageBuffer sb))
    (hcontent' : msg'.content = some (.storageBuffer { sb with flashPage })) (hne : sb.flashPage ≠ []) (hne' : flashPage ≠ [])
    (hpage : codecs.parseFlashPage sb.flashPage = some page)
    (hpage' : codecs.parseFlashPage flashPage = some { page with chunks })
    (hchunks : List.Forall₂ (FlashPagePb2.Chunk.Sealed encrypt key) page.chunks chunks) :
    SealedMessage codecs encrypt key payload payload'
  | other {payload : Bytes} (h : ∀ msg sb, codecs.parsePendantAll payload = some msg → msg.content = some (.storageBuffer sb) →
      sb.flashPage = [] ∨ codecs.parseFlashPage sb.flashPage = none) :
    SealedMessage codecs encrypt key payload payload

/-! ### The key sets -/

section
variable {Priv Pub : Type} {lib : EcLibrary Priv Pub}

theorem EcLibrary.Lawful.importPendantPubkey (h : lib.Lawful) (pub : Pub) :
    importPendantPubkey lib (lib.publicBytes pub) = .ok pub := by
  obtain ⟨hlength, hhead⟩ := h.form pub
  rw [PendantClient.importPendantPubkey, if_neg (by simp [hlength, hhead]), h.fromEncodedPoint]

/-- The set that is generated, the set from the saved key, and the pendant's own key agree. -/
theorem EcLibrary.Lawful.keysets (h : lib.Lawful) (server pendant : Priv) :
    ∃ keyset, generateKeyset lib server (lib.publicBytes (lib.publicKey pendant)) = .ok keyset ∧
      keysetFromExisting lib (lib.privateBytes keyset.serverPriv) (lib.publicBytes (lib.publicKey pendant)) = .ok keyset ∧
      pendantKey lib pendant keyset.serverPubBytes = some keyset.aesKey ∧ keyset.aesKey.length = 16 := by
  refine ⟨_, by rw [generateKeyset, h.importPendantPubkey, ok_bind], ?_, ?_, h.hkdf _⟩
  · rw [keysetFromExisting, h.pem]
    dsimp only
    rw [h.importPendantPubkey, ok_bind]
  · rw [pendantKey, exportServerPubkey, h.fromEncodedPoint, Option.map_some, h.exchange]

end

/-! ### Chunks -/

section
variable {codecs : Codecs} {encrypt : Bytes → Bytes → Bytes → Bytes × Bytes} {keys : AudioKeySet} {keys₀ : Option AudioKeySet}

theorem decryptChunk_plain {chunk : Chunk} (h : ∀ audio ∈ chunk.audio, audio.encrypted = none) :
    decryptChunk codecs keys₀ chunk = chunk := by
  unfold decryptChunk
  split
  · rename_i audio _ haudio
    rw [h audio haudio, Option.isSome_none, if_neg Bool.false_ne_true]
  · rfl

theorem decryptAudio_sealed (h : codecs.Opens encrypt) (hkey : keys.aesKey.length = 16) (audio : FlashPagePb2.PendantAudioData)
    {nonce : Bytes} (hnonce : nonce.length = 12) (offsets : List Int) (plain : Bytes) :
    decryptAudio codecs (convertAudio (audio.sealed nonce offsets (encrypt keys.aesKey nonce plain))) keys.aesKey = .ok plain := by
  have hne : keys.aesKey.isEmpty = false := by
    cases hkeys : keys.aesKey with
    | nil => rw [hkeys] at hkey; cases hkey
    | cons b bs => rfl
  simp [decryptAudio, convertAudio, FlashPagePb2.PendantAudioData.sealed, hne, hkey, hnonce, h.tag, h.opens _ _ _ hkey hnonce]

theorem convertChunk_plain {chunk : FlashPagePb2.Chunk}
    (h : ∀ audio ∈ chunk.audioData, audio.encryptedCodecBeamformingData = none) :
    decryptChunk codecs keys₀ (convertChunk chunk) = convertChunk chunk := by
  refine decryptChunk_plain fun audio haudio => ?_
  obtain ⟨data, hdata, rfl⟩ := Option.map_eq_some_iff.mp haudio
  show data.encryptedCodecBeamformingData.map _ = none
  rw [h data hdata, Option.map_none]

/-- Of its audio the decoder looks at the packets and the markers of a chunk. -/
theorem AudioChunk.Same.of_audio {c c' : AudioChunk} (hhas : c'.chunk.hasAudio = c.chunk.hasAudio)
    (hstart : c'.chunk.isRecordingStart = c.chunk.isRecordingStart) (hstop : c'.chunk.isRecordingStop = c.chunk.isRecordingStop)
    (hopus : c'.opus = c.opus) (hrest : c' = { c with chunk := { c.chunk with audio := c'.chunk.audio } }) : c.Same c' where
  hasAudio := hhas
  isRecordingStart := hstart
  isRecordingStop := hstop
  opus := hopus
  event := by
    have hkind : eventKindFor c'.chunk = eventKindFor c.chunk := by
      rw [eventKindFor, eventKindFor, hstart, hstop, hrest]
      rfl
    rw [eventFor, eventFor, hkind, hrest]
    rfl
  note w := by
    have hstart' : Flagged.isRecordingStart c' = Flagged.isRecordingStart c := hstart
    have hstop' : Flagged.isRecordingStop c' = Flagged.isRecordingStop c := hstop
    rw [RecordingWriter.note, RecordingWriter.note, hstart', hstop', hrest]
    rfl

theorem decryptChunk_sealed (h : codecs.Opens encrypt) (hkey : keys.aesKey.length = 16) (chunk : FlashPagePb2.Chunk)
    (audio : FlashPagePb2.PendantAudioData) {nonce : Bytes} (hnonce : nonce.length = 12) (offsets : List Int) (plain : Bytes) :
    let sealed := audio.sealed nonce offsets (encrypt keys.aesKey nonce plain)
    decryptChunk codecs (some keys) (convertChunk { chunk with audioData := some sealed }) =
      { convertChunk chunk with audio := some { convertAudio sealed with opusPackets := plain } } := by
  intro sealed
  have hopened : decryptAudio codecs (convertAudio sealed) keys.aesKey = .ok plain :=
    decryptAudio_sealed h hkey audio hnonce offsets plain
  have haudio : (convertChunk { chunk with audioData := some sealed }).audio = some (convertAudio sealed) := rfl
  unfold decryptChunk
  rw [haudio]
  dsimp only
  rw [hopened, if_pos (show (convertAudio sealed).encrypted.isSome = true from rfl)]
  rfl

theorem pageChunks_sealed (h : codecs.Opens encrypt) (hkey : keys.aesKey.length = 16) (sb : StorageBufferMsg) (flashPage : Bytes)
    (page page' : FlashPage) (htime : page'.absoluteTimestampMs = page.absoluteTimestampMs)
    (hboot : page'.bootUptimeMs = page.bootUptimeMs)
    {chunks chunks' : List FlashPagePb2.Chunk} (hchunks : List.Forall₂ (FlashPagePb2.Chunk.Sealed encrypt keys.aesKey) chunks chunks') :
    List.Forall₂ AudioChunk.Same (pageChunks codecs keys₀ sb page (chunks.map convertChunk))
      (pageChunks codecs (some keys) { sb with flashPage } page' (chunks'.map convertChunk)) := by
  induction hchunks with
  | nil => exact .nil
  | @cons chunk chunk' chunks chunks' hsealed _ ih =>
    refine .cons ?_ ih
    rw [htime, hboot]
    cases hsealed with
    | other hplain =>
      rw [convertChunk_plain hplain, convertChunk_plain hplain]
      exact .refl _
    | audio audio nonce offsets haudio hplain hdata hnonce =>
      have hconverted : (convertChunk chunk).audio = some (convertAudio audio) := by rw [convertChunk, haudio, Option.map_some]
      have hsome : audio.codecBeamformingData.isEmpty = false := by simpa using hdata
      have hpackets : (convertAudio audio).opusPackets = audio.codecBeamformingData := if_neg (by simp [hsome])
      rw [convertChunk_plain fun a ha => Option.some.inj (haudio.symm.trans ha) ▸ hplain,
        decryptChunk_sealed h hkey chunk audio hnonce]
      refine .of_audio ?_ ?_ ?_ ?_ rfl
      · simp [Chunk.hasAudio, AudioPayload.hasAudio, hconverted, hpackets, hsome]
      · simp [Chunk.isRecordingStart, hconverted, convertAudio, FlashPagePb2.PendantAudioData.sealed]
      · simp [Chunk.isRecordingStop, hconverted, convertAudio, FlashPagePb2.PendantAudioData.sealed]
      · simp [AudioChunk.opus, hconverted, hpackets]

end

section
variable {codecs : Codecs} {encrypt : Bytes → Bytes → Bytes → Bytes × Bytes} {keys : AudioKeySet} {keys₀ : Option AudioKeySet}
  {acceptTypes : List Int}

theorem SealedMessage.chunks (h : codecs.Opens encrypt) (hkey : keys.aesKey.length = 16) {payload payload' : Bytes}
    (hsealed : SealedMessage codecs encrypt keys.aesKey payload payload') :
    List.Forall₂ AudioChunk.Same (iterAudioChunksFromMessages codecs keys₀ acceptTypes [payload])
      (iterAudioChunksFromMessages codecs (some keys) acceptTypes [payload']) := by
  cases hsealed with
  | @page _ msg msg' sb flashPage page chunks hparse hparse' hcontent hcontent' hne hne' hpage hpage' hchunks =>
    simp only [iterAudioChunksFromMessages, hparse, hparse', hcontent, hcontent', parseFlashPage, hpage, hpage', Option.map_some,
      List.isEmpty_iff, hne, hne', if_false, List.append_nil]
    split
    · exact .nil
    · refine pageChunks_sealed h hkey sb flashPage _ _ ?_ ?_ hchunks <;> rfl
  | other hother =>
    simp only [iterAudioChunksFromMessages]
    split
    · exact .nil
    · rename_i msg hparse
      split
      · rename_i sb hcontent
        rcases hother msg sb hparse hcontent with hempty | hunread
        · simp [hempty]
        · simp [parseFlashPage, hunread]
      · exact .nil

theorem chunks_sealed (h : codecs.Opens encrypt) (hkey : keys.aesKey.length = 16) {messages messages' : List Bytes}
    (hsealed : List.Forall₂ (SealedMessage codecs encrypt keys.aesKey) messages messages') :
    List.Forall₂ AudioChunk.Same (iterAudioChunksFromMessages codecs keys₀ acceptTypes messages)
      (iterAudioChunksFromMessages codecs (some keys) acceptTypes messages') := by
  induction hsealed with
  | nil => exact .nil
  | @cons payload payload' messages messages' hmessage _ ih =>
    rw [iterAudioChunks_cons, iterAudioChunks_cons payload']
    exact List.rel_append (hmessage.chunks h hkey) ih

end

/-! ### Streams -/

/-- A run over messages whose audio the pendant has sealed leaves what the run over the plain messages leaves, up to the serial
    numbers of the recordings. Its keys are those that were generated for the pendant, or the ones from the saved private key:
    the sets are the same, and their AES key is the one that the pendant derives from the public key it is sent. -/
theorem sealed_audio_decodes {Priv Pub : Type} (lib : EcLibrary Priv Pub) (hlib : lib.Lawful) (codecs : Codecs)
    (encrypt : Bytes → Bytes → Bytes → Bytes × Bytes) (hcipher : codecs.Opens encrypt) (server pendant : Priv) :
    let pendantPubBytes := lib.publicBytes (lib.publicKey pendant)
    ∃ keyset, generateKeyset lib server pendantPubBytes = .ok keyset ∧
      keysetFromExisting lib (lib.privateBytes keyset.serverPriv) pendantPubBytes = .ok keyset ∧
      pendantKey lib pendant keyset.serverPubBytes = some keyset.aesKey ∧
      ∀ (messages messages' : List Bytes), List.Forall₂ (SealedMessage codecs encrypt keyset.aesKey) messages messages' →
        ∀ (acceptTypes : List Int) (base : AudioBase) (clock : Clock) (urandom urandom' : Nat → Fin 4 → UInt8) (info : SyncInfo)
          (files files' : Files) (ending : Option PyError),
          Decoded.Twins files files'
            (decodeChunksIntoFiles base urandom clock info files
              (iterAudioChunksFromMessages codecs none acceptTypes messages) ending)
            (decodeChunksIntoFiles base urandom' clock info files'
              (iterAudioChunksFromMessages codecs (some keyset.toAudioKeySet) acceptTypes messages') ending) := by
  intro pendantPubBytes
  obtain ⟨keyset, hgenerated, hexisting, hpendant, hlength⟩ := hlib.keysets server pendant
  refine ⟨keyset, hgenerated, hexisting, hpendant, ?_⟩
  intro messages messages' hsealed acceptTypes base clock urandom urandom' info files files' ending
  exact twins_decodeChunksIntoFiles base clock urandom urandom' info files files' (chunks_sealed hcipher hlength hsealed) ending

/-! ### A key agreement -/

/-- The bytes of a number, the highest first. -/
def bigEndian (length n : Nat) : Bytes := (LittleEndian.bytes length n).reverse

/-- A private key in PEM, with the lines of its body. -/
def pkcs8Pem (body : List String) : Bytes :=
  let kind := "PRIVATE KEY"
  (["-----BEGIN " ++ kind ++ "-----"] ++ body ++ ["-----END " ++ kind ++ "-----"]).flatMap fun line => asciiBytes (line ++ "\n")

/-- Of two key pairs, the pendant's and the server's. -/
inductive Party
  | server
  | pendant
  deriving DecidableEq

namespace Party

/-- The public key of a party, as an uncompressed point. -/
def point : Party → Bytes
  | server => bigEndian 33 0x040cbd7834d484924afbb785b5f1c30c175dffb07eaed6412ce2601122df37d147 ++
      bigEndian 32 0x5a04fda9bbaca760fe636b3939647436243bc4bc9f86a8f1b5680da7aa29a8cf
  | pendant => bigEndian 33 0x046fbb59260c1c1b516e890933b02749d2b209b5a4dd30c42257ee7dd5a23b5200 ++
      bigEndian 32 0xef9e3129728c53925fbe480ac0ccd8d68e8e2c84fd0f627364d0200ecc59a30a

/-- The private key of a party. -/
def pem : Party → Bytes
  | server => pkcs8Pem ["MIGHAgEAMBMGByqGSM49AgEGCCqGSM49AwEHBG0wawIBAQQgThiRMCT4sJhLPgMX",
      "mGvrHpfPkRlblqZhIINsItBeLy+hRANCAAQMvXg01ISSSvu3hbXxwwwXXf+wfq7W",
      "QSziYBEi3zfRR1oE/am7rKdg/mNrOTlkdDYkO8S8n4ao8bVoDaeqKajP"]
  | pendant => pkcs8Pem ["MIGHAgEAMBMGByqGSM49AgEGCCqGSM49AwEHBG0wawIBAQQgXBScGjiMYUqHVvXs",
      "yPx911LVg/GCtfcZYsxlTk+yvguhRANCAARvu1kmDBwbUW6JCTOwJ0nSsgm1pN0w",
      "xCJX7n3VojtSAO+eMSlyjFOSX75ICsDM2NaOjiyE/Q9ic2TQIA7MWaMK"]

/-- The secret that two parties agree on. -/
def shared : Party → Party → Bytes
  | server, server => bigEndian 32 0x196037c34b7dd210f974e2b9ecb95232ab97d5ed337d4e94994a6744d57b89e5
  | pendant, pendant => bigEndian 32 0x3a9438092dac159827caabadf285e2cf8f88c44a272910d81aac5feebdeed804
  | _, _ => bigEndian 32 0xa5f86e91fbdb8bc0c38a627fab6c57bf15c434ed40678e89746882ca9bff61ea

/-- The package on these keys. -/
def library : EcLibrary Party Party where
  fromEncodedPoint bytes :=
    if bytes = server.point then some server else if bytes = pendant.point then some pendant else none
  publicBytes := point
  publicKey party := party
  exchange := shared
  hkdf bytes :=
    if bytes = shared server pendant then bigEndian 16 0x3f9dd86e561b295f1d058bfb256fec25 else List.replicate 16 0
  privateBytes := pem
  loadPemPrivateKey bytes :=
    if bytes = server.pem then some (.secp256r1 server) else if bytes = pendant.pem then some (.secp256r1 pendant) else none

theorem pem_ne : pendant.pem ≠ server.pem := by decide +kernel

theorem library_lawful : library.Lawful where
  form party := by cases party <;> decide +kernel
  fromEncodedPoint party := by cases party <;> decide +kernel
  exchange a b := by cases a <;> cases b <;> rfl
  hkdf bytes := by
    show List.length (if _ then _ else _) = 16
    split <;> decide +kernel
  pem party := by
    cases party with
    | server => simp only [library, if_true]
    | pendant => simp only [library, pem_ne, if_false, if_true]

/-- The AES key of the two parties. -/
def key : Bytes := bigEndian 16 0x3f9dd86e561b295f1d058bfb256fec25

/-- A nonce of twelve bytes. -/
def nonce : Bytes := bigEndian 12 0x0102030405060708090a0b0c

/-- The tag of the sealed packet. -/
def tag : Bytes := bigEndian 16 0xd80922e78ea7913db3ccee3e78abd32e

/-- AES-GCM on the packet that is sealed below; elsewhere any cipher does. -/
def encrypt (k n plain : Bytes) : Bytes × Bytes :=
  if k = key ∧ n = nonce ∧ plain = [0xB8] then ([0xF9], tag) else (plain, List.replicate 16 0)

/-- What opens these ciphertexts. -/
def decrypt (k n data : Bytes) : Except PyError Bytes :=
  if k = key ∧ n = nonce ∧ data = 0xF9 :: tag then .ok [0xB8]
  else if data.drop (data.length - 16) = List.replicate 16 0 then .ok (data.take (data.length - 16))
  else .error .invalidTag

/-- The page of `audioPage` with its audio sealed, on the wire. -/
def page : Bytes :=
  wireField 0x1A (wireField 0x12 (wireField 0x6A (wireField 0x0A nonce ++ wireField 0x12 [0xF9] ++ wireField 0x1A tag)))

/-- A message with that page. -/
def message : Bytes := wireField 0x12 ([0x08, 0x02, 0x28, 0x07] ++ wireField 0x32 page)

/-- The audio before it is sealed. -/
def plainAudio : FlashPagePb2.PendantAudioData := { codecBeamformingData := [0xB8] }

/-- The parsers on the sealed and on the plain message, and the cipher. -/
def codecs : Codecs where
  parsePendantAll payload :=
    if payload = message then some { content := some (.storageBuffer { ingestType := 2, index := 7, flashPage := page }) }
    else if payload = audioPageMessage then
      some { content := some (.storageBuffer { ingestType := 2, index := 7, flashPage := audioPage }) }
    else none
  parseFlashPage bytes :=
    if bytes = page then some { chunks := [{ audioData := some (plainAudio.sealed nonce [] ([0xF9], tag)) }] }
    else if bytes = audioPage then some { chunks := [{ audioData := some plainAudio }] }
    else none
  aesGcmDecrypt := decrypt

theorem codecs_opens : codecs.Opens encrypt where
  tag k n plain := by
    rw [encrypt]
    split
    · decide +kernel
    · exact List.length_replicate
  opens k n plain _ _ := by
    show decrypt k n _ = _
    rw [encrypt]
    split
    · rename_i h
      rw [decrypt, if_pos ⟨h.1, h.2.1, rfl⟩, h.2.2]
    · rename_i h
      have hother : plain ++ List.replicate 16 0 ≠ [0xF9] ++ tag := by
        intro heq
        have htag := List.append_inj_right' heq (by decide +kernel)
        exact absurd htag (by decide +kernel)
      rw [decrypt, if_neg fun hall => hother hall.2.2, List.length_append, List.length_replicate, Nat.add_sub_cancel,
        List.drop_left, if_pos rfl, List.take_left]

theorem message_sealed : SealedMessage codecs encrypt key audioPageMessage message := by
  have hparse : codecs.parsePendantAll audioPageMessage =
      some { content := some (.storageBuffer { ingestType := 2, index := 7, flashPage := audioPage }) } := by decide +kernel
  have hparse' : codecs.parsePendantAll message =
      some { content := some (.storageBuffer { ingestType := 2, index := 7, flashPage := page }) } := by decide +kernel
  have hpage : codecs.parseFlashPage audioPage = some { chunks := [{ audioData := some plainAudio }] } := by decide +kernel
  have hpage' : codecs.parseFlashPage page =
      some { chunks := [{ audioData := some (plainAudio.sealed nonce [] (encrypt key nonce [0xB8])) }] } := by decide +kernel
  exact .page hparse hparse' rfl rfl (by decide) (by decide +kernel) hpage hpage'
    (.cons (.audio _ plainAudio nonce [] rfl rfl (by decide) (by decide +kernel)) .nil)

/-- The server's key set. -/
def keyset : ServerKeySet Party where
  aesKey := key
  serverPriv := server
  serverPubBytes := server.point
  pendantPubBytes := pendant.point

theorem keysets_eq : generateKeyset library .server (library.publicBytes (library.publicKey .pendant)) = .ok keyset ∧
    keysetFromExisting library (library.privateBytes .server) (library.publicBytes (library.publicKey .pendant)) = .ok keyset := by
  obtain ⟨generated, hgenerated, hexisting, -, -⟩ := library_lawful.keysets .server .pendant
  have hgeneratedEq : generated = keyset := by
    rw [generateKeyset, library_lawful.importPendantPubkey (library.publicKey .pendant), ok_bind] at hgenerated
    cases hgenerated
    decide +kernel
  rw [hgeneratedEq] at hgenerated hexisting
  exact ⟨hgenerated, hexisting⟩

end Party

/-- The server's key is sent, the page comes back sealed, and is opened with the saved key. -/
theorem sealed_audio_decodes_sample :
    let pendantPubBytes := Party.library.publicBytes (Party.library.publicKey .pendant)
    ∃ keyset, generateKeyset Party.library .server pendantPubBytes = .ok keyset ∧
      keysetFromExisting Party.library (Party.library.privateBytes keyset.serverPriv) pendantPubBytes = .ok keyset ∧
      let plain := decodeChunksIntoFiles oggBase (fun _ _ => 7) Utc.clock sampleSync (fun _ => none)
        (iterAudioChunksFromMessages Party.codecs none [1, 2] [audioPageMessage]) (none : Option PyError)
      let opened := decodeChunksIntoFiles oggBase (fun _ _ => 7) Utc.clock sampleSync (fun _ => none)
        (iterAudioChunksFromMessages Party.codecs (some keyset.toAudioKeySet) [1, 2] [Party.message]) (none : Option PyError)
      opened.sidecars = plain.sidecars ∧ SameFile (plain.files "sync_rec0000.opus") (opened.files "sync_rec0000.opus") := by
  intro pendantPubBytes
  obtain ⟨keyset, hgenerated, hexisting, hpendant, hdecodes⟩ := sealed_audio_decodes Party.library Party.library_lawful
    Party.codecs Party.encrypt Party.codecs_opens .server .pendant
  have hkey : keyset = Party.keyset := Except.ok.inj (hgenerated.symm.trans Party.keysets_eq.1)
  rw [hkey] at hdecodes hgenerated hexisting
  have htwins := hdecodes _ _ (.cons Party.message_sealed .nil) [1, 2] oggBase Utc.clock (fun _ _ => 7) (fun _ _ => 7) sampleSync
    (fun _ => none) (fun _ => none) none
  refine ⟨Party.keyset, hgenerated, hexisting, htwins.sidecars, ?_⟩
  rcases htwins.files "sync_rec0000.opus" with hsame | ⟨hplain, hopened⟩
  · exact hsame
  · exact .inl (hopened.trans hplain.symm)

end PendantClient
