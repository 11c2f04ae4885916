import Tahini.Core.Bytes
import Tahini.Core.Sha256
import Tahini.Core.Json
import Tahini.Core.Types
import Tahini.Core.Crypto
import Tahini.Core.Certificate
import Tahini.Core.Config
import Tahini.Policy.Summary
import Tahini.Policy.Build
import Tahini.Policy.Leaves
import Tahini.Policy.Ledger
import Tahini.Issuer.Hashing
import Tahini.Issuer.Main
import Tahini.Service.ClientMap
import Tahini.Service.Fifo
import Tahini.Service.Handoff
import Tahini.Sidecar.Launch
import Tahini.Sidecar.Attest
import Tahini.Sidecar.Setup
import Tahini.Sidecar.Serve
import Tahini.Client.Verify
import Tahini.Client.Config
import Tahini.Deploy.ConfigParser
