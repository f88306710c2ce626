import Apchi.Catalogs.Generator
import Apchi.ClientCertificates.Section
import Apchi.EventListeners.Section

/-!
# Staging Catalogs

A Catalog is accepted where its properties fit the schema of its connector, if there is one, and where
a certificate it is to present can be put into them.  What is accepted is stored as it was given.
-/

namespace Apchi.Catalogs

open Lib Pipeline ClientCertificates EventListeners

/-! ### The curated connectors -/

def JDBC_CREDENTIALS : List String :=
  ["connection-user", "connection-password", "credential-provider.type",
    "connection-credential-file", "keystore-file-path", "keystore-type", "keystore-password",
    "keystore-user-credential-name", "keystore-password-credential-name"]

def JDBC_TUNING : List String :=
  ["case-insensitive-name-matching", "case-insensitive-name-matching.cache-ttl",
    "metadata.cache-ttl", "metadata.cache-missing", "metadata.cache-maximum-size",
    "write.batch-size", "dynamic-filtering.enabled", "dynamic-filtering.wait-timeout",
    "join-pushdown.enabled", "join-pushdown.strategy", "domain-compaction-threshold",
    "unsupported-type-handling"]

def METASTORE : List String :=
  ["hive.metastore", "hive.metastore.uri", "hive.metastore.username",
    "hive.metastore.authentication.type", "hive.metastore.thrift.client.connect-timeout",
    "hive.metastore.thrift.client.read-timeout", "hive.metastore.thrift.client.ssl.enabled",
    "hive.metastore.glue.region", "hive.metastore.glue.pin-client-to-current-region",
    "hive.metastore.glue.max-connections", "hive.metastore.glue.catalogid",
    "hive.metastore.glue.endpoint-url", "hive.metastore-cache-ttl"]

def FILE_SYSTEM : List String :=
  ["fs.s3.enabled", "fs.native-azure.enabled", "fs.native-gcs.enabled", "fs.hadoop.enabled",
    "s3.aws-access-key", "s3.aws-secret-key", "s3.region", "s3.endpoint", "s3.path-style-access",
    "s3.iam-role", "s3.auth-type"]

/-- `_tls`. -/
def tls (area : String) : List String :=
  [".enabled", ".keystore-path", ".keystore-password", ".truststore-path",
    ".truststore-password"].map (area ++ ·)

def POSTGRESQL : PropertySchema where
  required := ["connection-url"]
  optional := JDBC_CREDENTIALS ++ JDBC_TUNING ++
    ["postgresql.array-mapping", "postgresql.include-system-tables"]

def MONGODB : PropertySchema where
  required := ["mongodb.connection-url"]
  optional := ["mongodb.schema-collection", "mongodb.case-insensitive-name-matching",
    "mongodb.min-connections-per-host", "mongodb.connections-per-host", "mongodb.max-wait-time",
    "mongodb.max-connection-idle-time", "mongodb.connection-timeout", "mongodb.socket-timeout",
    "mongodb.read-preference", "mongodb.write-concern", "mongodb.required-replica-set"] ++
    tls "mongodb.tls"

def HIVE : PropertySchema where
  branches := [{
    selector := "hive.metastore"
    default := some "thrift"
    allowed := ["thrift", "glue"]
    values := [("thrift", ["hive.metastore.uri"]), ("glue", [])] }]
  optional := METASTORE ++ FILE_SYSTEM ++
    ["hive.recursive-directories", "hive.storage-format", "hive.compression-codec",
      "hive.target-max-file-size", "hive.non-managed-table-writes-enabled",
      "hive.hive-views.enabled", "hive.query-partition-filter-required",
      "hive.max-partitions-per-scan", "hive.security", "hive.timestamp-precision",
      "hive.metastore.glue.aws-access-key", "hive.metastore.glue.aws-secret-key"]

def ICEBERG : PropertySchema where
  branches := [{
    selector := "iceberg.catalog.type"
    default := some "hive_metastore"
    allowed := ["hive_metastore", "glue", "jdbc", "rest", "nessie", "snowflake"]
    values := [("hive_metastore", ["hive.metastore.uri"]), ("glue", []),
      ("rest", ["iceberg.rest-catalog.uri"]),
      ("jdbc", ["iceberg.jdbc-catalog.driver-class", "iceberg.jdbc-catalog.connection-url",
        "iceberg.jdbc-catalog.default-warehouse-dir", "iceberg.jdbc-catalog.catalog-name"]),
      ("nessie", ["iceberg.nessie-catalog.uri"]),
      ("snowflake", ["iceberg.snowflake-catalog.account-uri", "iceberg.snowflake-catalog.user",
        "iceberg.snowflake-catalog.password", "iceberg.snowflake-catalog.database"])] }]
  optional := METASTORE ++ FILE_SYSTEM ++
    ["iceberg.file-format", "iceberg.compression-codec", "iceberg.max-partitions-per-writer",
      "iceberg.target-max-file-size", "iceberg.unique-table-location",
      "iceberg.dynamic-filtering.wait-timeout", "iceberg.table-statistics-enabled",
      "iceberg.register-table-procedure.enabled", "iceberg.security",
      "iceberg.jdbc-catalog.connection-user", "iceberg.jdbc-catalog.connection-password",
      "iceberg.rest-catalog.security", "iceberg.rest-catalog.session",
      "iceberg.rest-catalog.oauth2.token", "iceberg.rest-catalog.oauth2.credential",
      "iceberg.nessie-catalog.authentication.token"]
  openEnded := ["iceberg.rest-catalog.http-headers"]

def REDIS : PropertySchema where
  required := ["redis.nodes"]
  optional := ["redis.table-names", "redis.default-schema", "redis.scan-count",
    "redis.max-keys-per-fetch", "redis.key-prefix-schema-table", "redis.key-delimiter",
    "redis.table-description-dir", "redis.table-description-cache-ttl",
    "redis.hide-internal-columns", "redis.database-index", "redis.user", "redis.password"] ++
    tls "redis.tls"

def ELASTICSEARCH : PropertySchema where
  required := ["elasticsearch.host"]
  branches := [{
    selector := "elasticsearch.security"
    allowed := ["AWS", "PASSWORD"]
    values := [("AWS", ["elasticsearch.aws.region"]),
      ("PASSWORD", ["elasticsearch.auth.user", "elasticsearch.auth.password"])] }]
  optional := ["elasticsearch.port", "elasticsearch.default-schema-name",
    "elasticsearch.scroll-size", "elasticsearch.scroll-timeout", "elasticsearch.request-timeout",
    "elasticsearch.connect-timeout", "elasticsearch.backoff-init-delay",
    "elasticsearch.backoff-max-delay", "elasticsearch.max-retry-time",
    "elasticsearch.node-refresh-interval", "elasticsearch.tls.verify-hostnames",
    "elasticsearch.aws.access-key", "elasticsearch.aws.secret-key", "elasticsearch.aws.iam-role",
    "elasticsearch.aws.external-id"] ++ tls "elasticsearch.tls"

def KAFKA : PropertySchema where
  required := ["kafka.nodes"]
  branches := [{
    selector := "kafka.table-description-supplier"
    default := some "FILE"
    allowed := ["FILE", "CONFLUENT"]
    values := [("FILE", ["kafka.table-names"]),
      ("CONFLUENT", ["kafka.confluent-schema-registry-url"])] }]
  optional := ["kafka.default-schema", "kafka.buffer-size", "kafka.hide-internal-columns",
    "kafka.internal-column-prefix", "kafka.messages-per-split", "kafka.table-description-dir",
    "kafka.protobuf-any-support-enabled", "kafka.timestamp-upper-bound-force-push-down-enabled",
    "kafka.confluent-schema-registry-client-cache-size", "kafka.empty-field-strategy",
    "kafka.security-protocol", "kafka.ssl.keystore.location", "kafka.ssl.keystore.password",
    "kafka.ssl.keystore.type", "kafka.ssl.truststore.location", "kafka.ssl.truststore.password",
    "kafka.ssl.truststore.type", "kafka.ssl.key.password",
    "kafka.ssl.endpoint-identification-algorithm"]
  openEnded := ["kafka.config.resources"]

def CURATED_SCHEMAS : List (String × PropertySchema) :=
  [("postgresql", POSTGRESQL), ("mongodb", MONGODB), ("hive", HIVE), ("iceberg", ICEBERG),
    ("redis", REDIS), ("elasticsearch", ELASTICSEARCH), ("kafka", KAFKA)]

/-! ### What is accepted -/

/-- The connectors whose way of naming a client certificate Apchi knows. -/
def WIRED : List String := ["postgresql"]

section staging

/- `closest` is the name of those known that a name was probably meant for; `queryKeys` are the keys
of a URL's query, `parse_qsl(urlsplit(url).query)`, or that it cannot be taken apart. -/
variable (closest : String → List String → Option String)
variable (queryKeys : String → Except Error (List String))

/-- `_validated`. -/
def validProperties (connector : String) (properties : Dict) : Except Refusal Dict :=
  match validate closest (CURATED_SCHEMAS.lookup connector) properties connector "connector" with
  | .ok stored => .ok stored
  | .error problems => .error ⟨"UnprocessablePayload", "The properties are not valid for the '" ++
      connector ++ "' connector.", problems⟩

/-- `url.removeprefix("jdbc:")`. -/
def withoutJdbc (url : String) : String :=
  if "jdbc:".toList.isPrefixOf url.toList then .ofList (url.toList.drop 5) else url

/-- `ssl_is_configured`. -/
def sslIsConfigured (connector : String) (properties : Dict) : Except Error Bool :=
  if connector ≠ "postgresql" then .ok true
  else do
    let keys ← queryKeys (withoutJdbc (properties["connection-url"]?.getD ""))
    return keys.contains "sslmode"

/-- `_certificate_usable`. -/
def certificateUsable (connector : String) (properties : Dict) (certificate : String) :
    Except Refusal Unit :=
  if connector ∉ WIRED then
    .error ⟨"UnprocessablePayload", "Apchi does not know how the '" ++ connector ++
      "' connector names a client certificate. Reference it by hand instead: $\x7bcert:" ++
      certificate ++ "\x7d and $\x7bkey:" ++ certificate ++
      "\x7d expand to the paths, in whichever property '" ++ connector ++ "' documents for them.",
      [("certificate", "'" ++ connector ++ "' is not wired")]⟩
  else match sslIsConfigured queryKeys connector properties with
    | .error e => .error ⟨e.kind, e.text, []⟩
    | .ok true => .ok ()
    | .ok false => .error ⟨"UnprocessablePayload",
        "A client certificate does nothing until the connection is told to use TLS. Set sslmode " ++
        "on the connection URL -- Apchi will not choose between \x60require\x60 and " ++
        "\x60verify-full\x60 for you.",
        [("properties", "no sslmode on the connection URL")]⟩

/-- A Catalog as it is put away; no reader of its properties looks at their order. -/
def Catalog.stored (catalog : Catalog) : Json :=
  .obj ([("connector", .str catalog.connector),
    ("properties", .obj (catalog.properties.toList.map fun (key, value) => (key, .str value)))] ++
    match catalog.certificate with
    | none => []
    | some certificate => [("certificate", .str certificate)])

/-- `validated`: a Catalog with everything about it judged. -/
def validated (connector : String) (properties : Dict) (certificate : Option String) :
    Except Refusal Catalog := do
  let properties ← validProperties closest connector properties
  match certificate with
    | none | some "" => return ⟨connector, properties, none⟩
    | some certificate =>
        certificateUsable queryKeys connector properties certificate
        return ⟨connector, properties, some certificate⟩

/-- `create_catalog`. -/
def createCatalog (stored : Resources) (name : String) (connector : PluginName)
    (properties : Dict) (certificate : Option CertificateName) : Except Refusal Resources :=
  if name ∈ stored then
    .error ⟨"NameAlreadyTaken", "A Catalog named '" ++ name ++ "' already exists.", []⟩
  else do
    let catalog ← validated closest queryKeys connector.text properties
      (certificate.map CertificateName.text)
    return stored.insert name catalog.stored

/-- `update_catalog`: a field is omitted, or sent, and then perhaps as null. -/
def updateCatalog (stored : Resources) (name : String) (connector : Option (Option PluginName))
    (properties : Option (Option Dict)) (certificate : Option (Option CertificateName)) :
    Except Refusal Resources :=
  match stored[name]? with
  | none => .error ⟨"NotFound", "No Catalog named '" ++ name ++
      "' in the Configuration Candidate.", []⟩
  | some value =>
      match Catalog.ofJson value with
      | .error e => .error ⟨e.kind, e.text, []⟩
      | .ok current =>
          match (connector.map (·.map PluginName.text)).getD (some current.connector),
            properties.getD (some current.properties) with
          | none, _ => .error ⟨"UnprocessablePayload",
              "A Catalog cannot have its connector removed -- a Catalog without one is not a " ++
              "Catalog. Send a connector, or omit the field to keep the current one.",
              [("connector", "cannot be cleared")]⟩
          | some _, none => .error ⟨"UnprocessablePayload",
              "A Catalog cannot have its properties removed. Send the properties you want, or " ++
              "omit the field to keep the current ones.", [("properties", "cannot be cleared")]⟩
          | some connector, some properties => do
              let catalog ← validated closest queryKeys connector properties
                ((certificate.map (·.map CertificateName.text)).getD current.certificate)
              return stored.insert name catalog.stored

/-- `delete_catalog`. -/
def deleteCatalog (stored : Resources) (name : String) : Except Refusal Resources :=
  if name ∈ stored then .ok (stored.erase name)
  else .error ⟨"NotFound", "No Catalog named '" ++ name ++
    "' in the Configuration Candidate.", []⟩

/-- What any sequence of operations leads to. -/
inductive Staged : Resources → Prop where
  | empty : Staged ∅
  | create {stored resources : Resources} {name : String} {connector : PluginName}
      {properties : Dict} {certificate : Option CertificateName} (h : Staged stored)
      (hcreate : createCatalog closest queryKeys stored name connector properties certificate =
        .ok resources) : Staged resources
  | update {stored resources : Resources} {name : String} {connector : Option (Option PluginName)}
      {properties : Option (Option Dict)} {certificate : Option (Option CertificateName)}
      (h : Staged stored)
      (hupdate : updateCatalog closest queryKeys stored name connector properties certificate =
        .ok resources) : Staged resources
  | delete {stored resources : Resources} {name : String} (h : Staged stored)
      (hdelete : deleteCatalog stored name = .ok resources) : Staged resources

/-! ### What is staged can be rendered -/

/-- The properties with the certificate put into them, before any reference is replaced. -/
def Catalog.wired (catalog : Catalog) : Except Error Dict :=
  match catalog.certificate with
  | none => .ok catalog.properties
  | some certificate => wire catalog.connector catalog.properties certificate

/-- A Catalog Apchi can render: its connector has the name of a plugin, and what certificate it has
can be put into its properties. -/
structure Catalog.Sound (catalog : Catalog) : Prop where
  connector : ∃ name : PluginName, name.text = catalog.connector
  certificate : catalog.certificate ≠ some ""
  wired : ∃ written, catalog.wired = .ok written

variable {closest queryKeys}

/-- Properties that are accepted are stored as they are given. -/
theorem validate_eq_ok {schema : Option PropertySchema} {properties stored : Dict}
    {subject kind : String} (h : validate closest schema properties subject kind = .ok stored) :
    stored = properties := by
  unfold validate at h
  split at h
  · cases h
    rfl
  · dsimp only at h
    split at h
    · cases h
      rfl
    · cases h

/-- What a schema requires is among the properties it accepts. -/
theorem mem_of_validate {schema : PropertySchema} {properties stored : Dict} {subject kind : String}
    (h : validate closest (some schema) properties subject kind = .ok stored) {name : String}
    (hname : name ∈ schema.required) : name ∈ properties := by
  unfold validate at h
  dsimp only at h
  split at h
  · next hproblems =>
    have hnone := (List.append_eq_nil_iff.mp hproblems).2
    rw [List.map_eq_nil_iff, List.filter_eq_nil_iff] at hnone
    by_contra hmissing
    refine hnone name ?_ (by simpa using hmissing)
    rw [sorted, Std.ExtTreeSet.mem_toList, Std.ExtTreeSet.mem_ofList, List.contains_iff_mem]
    exact List.mem_append_left _ hname
  · cases h

/-- What a schema does not know is not among the properties it accepts. -/
theorem known_of_validate {schema : PropertySchema} {properties stored : Dict}
    {subject kind : String}
    (h : validate closest (some schema) properties subject kind = .ok stored) {name : String}
    (hname : name ∈ properties) : name ∈ schema.known := by
  unfold validate at h
  dsimp only at h
  split at h
  · next hproblems =>
    have hnone := (List.append_eq_nil_iff.mp (List.append_eq_nil_iff.mp hproblems).1).2
    rw [List.map_eq_nil_iff, List.filter_eq_nil_iff] at hnone
    by_contra hunknown
    exact hnone name (Std.ExtTreeMap.mem_keys.mpr hname) (by simpa using hunknown)
  · cases h

theorem validate_of_validProperties {connector : String} {properties stored : Dict}
    (h : validProperties closest connector properties = .ok stored) :
    validate closest (CURATED_SCHEMAS.lookup connector) properties connector "connector" =
      .ok stored := by
  unfold validProperties at h
  split at h
  · next heq =>
    cases h
    exact heq
  · cases h

theorem certificateUsable_wired {connector : String} {properties : Dict} {certificate : String}
    (h : certificateUsable queryKeys connector properties certificate = .ok ()) :
    connector = "postgresql" := by
  unfold certificateUsable at h
  split at h
  · cases h
  · next hwired => exact List.mem_singleton.mp (not_not.mp hwired)

theorem wire_ok {properties : Dict} {url : String}
    (hurl : properties["connection-url"]? = some url) (certificate : String) :
    ∃ written, wire "postgresql" properties certificate = .ok written := by
  unfold wire
  rw [if_neg (by simp), hurl]
  exact ⟨_, rfl⟩

/-- What is accepted is what was given, and can be rendered. -/
theorem validated_sound {connector : String} (hconnector : ∃ name : PluginName, name.text = connector)
    {properties : Dict} {certificate : Option String} {catalog : Catalog}
    (h : validated closest queryKeys connector properties certificate = .ok catalog) :
    catalog.Sound ∧ catalog.connector = connector ∧ catalog.properties = properties := by
  unfold validated at h
  cases hvalid : validProperties closest connector properties with
  | error refusal =>
    rw [hvalid] at h
    cases h
  | ok stored =>
    have hschema := validate_of_validProperties hvalid
    obtain rfl := validate_eq_ok hschema
    rw [hvalid] at h
    change (match certificate with
      | none | some "" => Except.ok (⟨connector, stored, none⟩ : Catalog)
      | some certificate => _) = .ok catalog at h
    split at h
    · cases h
      exact ⟨⟨hconnector, nofun, stored, rfl⟩, rfl, rfl⟩
    · cases h
      exact ⟨⟨hconnector, nofun, stored, rfl⟩, rfl, rfl⟩
    · next certificate hnonempty =>
      cases husable : certificateUsable queryKeys connector stored certificate with
      | error refusal =>
        rw [husable] at h
        cases h
      | ok _ =>
        rw [husable] at h
        cases h
        obtain rfl := certificateUsable_wired husable
        -- the schema of the one connector that is wired requires the URL
        have hschema : validate closest (some POSTGRESQL) stored "postgresql" "connector" =
            .ok stored := hschema
        have hurl : "connection-url" ∈ stored := mem_of_validate hschema List.mem_cons_self
        obtain ⟨url, hurl⟩ := Option.isSome_iff_exists.mp
          (Std.ExtTreeMap.mem_iff_isSome_getElem?.mp hurl)
        refine ⟨⟨hconnector, fun heq => hnonempty (Option.some.inj heq), ?_⟩, rfl, rfl⟩
        exact wire_ok hurl certificate

/-- Under every name a Catalog is stored that can be rendered. -/
def Held (stored : Resources) : Prop :=
  ∀ (name : String) (value : Json), stored[name]? = some value →
    ∃ catalog : Catalog, catalog.Sound ∧ value = catalog.stored

theorem Held.insert {stored : Resources} (h : Held stored) (name : String) {catalog : Catalog}
    (hsound : catalog.Sound) : Held (stored.insert name catalog.stored) := by
  intro other value hvalue
  rw [Std.ExtTreeMap.getElem?_insert] at hvalue
  split at hvalue
  · cases hvalue
    exact ⟨catalog, hsound, rfl⟩
  · exact h other value hvalue

/-- A Catalog is taken apart into what was put away. -/
theorem ofJson_stored {catalog : Catalog} (h : catalog.certificate ≠ some "") :
    Catalog.ofJson catalog.stored = .ok catalog := by
  obtain ⟨connector, properties, certificate⟩ := catalog
  have hproperties := propertiesOf_stored properties
  have hcertificate : certificateOf (certificate.map .str) = .ok certificate := by
    cases certificate with
    | none => rfl
    | some name => exact congrArg Except.ok (if_neg fun heq => h (by rw [heq]))
  cases certificate with
  | none =>
    change (do
      let properties ← propertiesOf (some (.obj (properties.toList.map fun (key, value) =>
        (key, .str value))))
      let certificate ← certificateOf none
      return (⟨connector, properties, certificate⟩ : Catalog)) = _
    rw [hproperties]
    rfl
  | some name =>
    change (do
      let properties ← propertiesOf (some (.obj (properties.toList.map fun (key, value) =>
        (key, .str value))))
      let certificate ← certificateOf ((some name).map .str)
      return (⟨connector, properties, certificate⟩ : Catalog)) = _
    rw [hproperties, hcertificate]
    rfl

/-- What the operations lead to is held. -/
theorem Staged.held {stored : Resources} (h : Staged closest queryKeys stored) : Held stored := by
  induction h with
  | empty => intro name value hvalue; simp at hvalue
  | @create stored resources name connector properties certificate _ hcreate ih =>
    unfold createCatalog at hcreate
    split at hcreate
    · cases hcreate
    · obtain ⟨catalog, hcatalog, hcreate⟩ := ok_of_bind hcreate
      cases hcreate
      exact ih.insert name (validated_sound ⟨connector, rfl⟩ hcatalog).1
  | @update stored resources name connector properties certificate _ hupdate ih =>
    unfold updateCatalog at hupdate
    split at hupdate
    · cases hupdate
    · next value hvalue =>
      obtain ⟨catalog, hsound, rfl⟩ := ih name value hvalue
      rw [ofJson_stored hsound.certificate] at hupdate
      dsimp only at hupdate
      split at hupdate
      · cases hupdate
      · cases hupdate
      · next newConnector newProperties hnew _ =>
        obtain ⟨next, hnext, hupdate⟩ := ok_of_bind hupdate
        cases hupdate
        refine ih.insert name (validated_sound ?_ hnext).1
        -- the connector is the one that was sent, or the one that is there
        cases connector with
        | none =>
          cases hnew
          exact hsound.connector
        | some sent =>
          cases sent with
          | none => cases hnew
          | some sent =>
            cases hnew
            exact ⟨sent, rfl⟩
  | @delete stored resources gone _ hdelete ih =>
    unfold deleteCatalog at hdelete
    split at hdelete
    · cases hdelete
      intro name value hvalue
      rw [Std.ExtTreeMap.getElem?_erase] at hvalue
      split at hvalue
      · cases hvalue
      · exact ih name value hvalue
    · cases hdelete

end staging

end Apchi.Catalogs
