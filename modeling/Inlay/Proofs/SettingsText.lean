import Inlay.Settings.Read
import Inlay.Settings.Write

namespace Inlay.Settings

end Inlay.Settings
